import Boson.Task.ClosestCandidates
import Mathlib.Data.Prod.Lex

/-!
# What `ClosestCandidates` keeps

The candidates after any sequence of `add`, `remove` and marks on single candidates, from an empty
list.

* `Sound`: they are sorted, and no two have the same id or the same IP.
* `mem_shrink`: the candidates that stay when there are too many.
* `run_candidates`: what holds of every list of candidates, and what `add` and `next` make of it.
-/

namespace Boson

open Lowest

/-! ## IP addresses -/

/-- Equivalent under `IpCompare`, as a `std::set` has it. -/
def SocketAddress.SameIp (a b : SocketAddress) : Prop :=
  a.ipCompare b = false ∧ b.ipCompare a = false

instance (a b : SocketAddress) : Decidable (a.SameIp b) := inferInstanceAs (Decidable (_ ∧ _))

theorem SocketAddress.sameIp_iff {a b : SocketAddress} (ha : a.isValid = true)
    (hb : b.isValid = true) :
    a.SameIp b ↔ a.inaddr = b.inaddr := by
  have horder (x y : List UInt8) : ¬ x < y ∧ ¬ y < x ↔ x = y := by
    constructor
    · rintro ⟨hxy, hyx⟩
      exact List.le_antisymm hyx hxy
    · rintro rfl
      exact ⟨List.lt_irrefl x, List.lt_irrefl x⟩
  cases a with
  | empty => cases ha
  | inet ip port =>
    cases b with
    | empty => cases hb
    | inet ip' port' =>
      rw [inaddr, inaddr, ← horder]
      exact and_congr decide_eq_false_iff_not decide_eq_false_iff_not
    | inet6 ip' port' flowinfo scopeId =>
      have hne : ip.data ≠ ip'.data := fun h => by
        simpa [ip.size_eq, ip'.size_eq] using congrArg List.length h
      simp [SameIp, ipCompare, isValid, family, inaddr, Family.toNat, hne]
  | inet6 ip port flowinfo scopeId =>
    cases b with
    | empty => cases hb
    | inet ip' port' =>
      have hne : ip.data ≠ ip'.data := fun h => by
        simpa [ip.size_eq, ip'.size_eq] using congrArg List.length h
      simp [SameIp, ipCompare, isValid, family, inaddr, Family.toNat, hne]
    | inet6 ip' port' flowinfo' scopeId' =>
      rw [inaddr, inaddr, ← horder]
      exact and_congr decide_eq_false_iff_not decide_eq_false_iff_not

namespace ClosestCandidates

/-- What happens to a list of candidates. -/
inductive Step where
  | add (items : List NodeRef)
  | remove (id : Id)
  | setSent (id : Id) (now : UInt64)
  | clearSent (id : Id)

/-- The candidates afterwards. -/
def step (self : ClosestCandidates) : Step → ClosestCandidates
  | .add items => self.add items
  | .remove id => self.remove id
  | .setSent id now => self.modify id (·.setSent now)
  | .clearSent id => self.modify id (·.clearSent)

/-- The candidates after a sequence of steps. -/
def run (self : ClosestCandidates) (steps : List Step) : ClosestCandidates := steps.foldl step self

/-- All addresses are IPv4 or IPv6. -/
def Step.Valid : Step → Prop
  | add items => ∀ r ∈ items, r.node.sockaddr.isValid = true
  | _ => True

variable {cc : ClosestCandidates} {n : CandidateNode} {id : Id}

/-- The candidates are in order, and no two have the same id or the same IP. -/
structure Sound (cc : ClosestCandidates) : Prop where
  wf : WF cc
  valid : ∀ n ∈ cc.closest, n.sockaddr.isValid = true
  known : ∀ n ∈ cc.closest, n.sockaddr ∈ cc.dedupAddrs
  ips : (cc.closest.map fun n => n.sockaddr.inaddr).Nodup

theorem sound_empty (target : Id) (capacity : Nat) :
    Sound { target := target, capacity := capacity } :=
  ⟨wf_empty target capacity, by simp, by simp, List.nodup_nil⟩

theorem Sound.sublist (h : Sound cc) {l : List CandidateNode} (hl : l.Sublist cc.closest) :
    Sound { cc with closest := l } :=
  ⟨h.wf.sublist hl, fun n hn => h.valid n (hl.subset hn), fun n hn => h.known n (hl.subset hn),
    h.ips.sublist (hl.map _)⟩

/-- A mark on a candidate keeps its id and address. -/
theorem Sound.modify (h : Sound cc) (id : Id) {f : CandidateNode → CandidateNode}
    (hf : ∀ n, (f n).toNodeInfo = n.toNodeInfo) : Sound (cc.modify id f) := by
  have hnode : ∀ n : CandidateNode, (if n.nodeId = id then f n else n).toNodeInfo =
      n.toNodeInfo := by
    intro n
    split_ifs
    · exact hf n
    · rfl
  refine ⟨h.wf.modify id fun n => by rw [hf], fun n hn => ?_, fun n hn => ?_, ?_⟩
  · obtain ⟨m, hm, rfl⟩ := List.mem_map.mp hn
    rw [hnode]
    exact h.valid m hm
  · obtain ⟨m, hm, rfl⟩ := List.mem_map.mp hn
    rw [hnode]
    exact h.known m hm
  · simp only [ClosestCandidates.modify, List.map_map, Function.comp_def, hnode]
    exact h.ips

@[simp] theorem candidate_sockaddr (r : NodeRef) : r.candidate.sockaddr = r.node.sockaddr := by
    cases r <;> rfl

/-- Nodes whose addresses were never taken before, each once. -/
structure FreshAddrs (cc cc' : ClosestCandidates) (filtered : List CandidateNode) : Prop where
  grows : ∀ a ∈ cc.dedupAddrs, a ∈ cc'.dedupAddrs
  valid : ∀ n ∈ filtered, n.sockaddr.isValid = true
  known : ∀ n ∈ filtered, n.sockaddr ∈ cc'.dedupAddrs
  fresh : ∀ n ∈ filtered, ∀ a ∈ cc.dedupAddrs, a.isValid = true → a.inaddr ≠ n.sockaddr.inaddr
  ips : (filtered.map fun n => n.sockaddr.inaddr).Nodup

theorem takeNew_freshAddrs (cc : ClosestCandidates) (items : List NodeRef)
    (hvalid : ∀ r ∈ items, r.node.sockaddr.isValid = true) :
    FreshAddrs cc (cc.takeNew items).1 (cc.takeNew items).2 := by
  induction items generalizing cc with
  | nil =>
    exact ⟨fun _ h => h, by simp [takeNew], by simp [takeNew], by simp [takeNew], List.nodup_nil⟩
  | cons item rest ih =>
    obtain ⟨hitem, hrest⟩ := List.forall_mem_cons.mp hvalid
    unfold takeNew
    simp only
    split
    · exact ih cc hrest
    split
    · have hrest := ih { cc with dedupIds := item.node.nodeId :: cc.dedupIds } hrest
      exact ⟨hrest.grows, hrest.valid, hrest.known, hrest.fresh, hrest.ips⟩
    rename_i hnew
    obtain ⟨hgrows, hval, hknown, hfresh, hips⟩ := ih
      { cc with
        dedupIds := item.node.nodeId :: cc.dedupIds
        dedupAddrs := item.node.sockaddr :: cc.dedupAddrs } hrest
    have hne : ∀ a ∈ cc.dedupAddrs, a.isValid = true → a.inaddr ≠ item.node.sockaddr.inaddr := by
      intro a ha hav heq
      refine hnew (List.any_eq_true.mpr ⟨a, ha, ?_⟩)
      obtain ⟨h1, h2⟩ := (SocketAddress.sameIp_iff hav hitem).mpr heq
      rw [h1, h2]
      rfl
    refine ⟨fun a ha => hgrows a (List.mem_cons_of_mem _ ha), ?_, ?_, ?_, ?_⟩
    · exact List.forall_mem_cons.mpr ⟨by rw [candidate_sockaddr, hitem], hval⟩
    · exact List.forall_mem_cons.mpr
        ⟨by rw [candidate_sockaddr]; exact hgrows _ List.mem_cons_self, hknown⟩
    · refine List.forall_mem_cons.mpr ⟨by rwa [candidate_sockaddr], fun n hn a ha => ?_⟩
      exact hfresh n hn a (List.mem_cons_of_mem _ ha)
    · rw [List.map_cons, List.nodup_cons, candidate_sockaddr]
      refine ⟨fun hmem => ?_, hips⟩
      obtain ⟨m, hm, heq⟩ := List.mem_map.mp hmem
      exact hfresh m hm _ List.mem_cons_self hitem heq.symm

theorem Sound.add (h : Sound cc) {items : List NodeRef}
    (hvalid : ∀ r ∈ items, r.node.sockaddr.isValid = true) :
    Sound (cc.add items) := by
  have hfresh := takeNew_fresh cc items
  have haddrs := takeNew_freshAddrs cc items hvalid
  obtain ⟨-, -, hclosest⟩ := hfresh.same
  have hmerged : Sound ((cc.takeNew items).1.mergeSorted (cc.takeNew items).2) := by
    have hperm : ((cc.takeNew items).1.mergeSorted (cc.takeNew items).2).closest.Perm
        (cc.closest ++ (cc.takeNew items).2) := hclosest ▸ mergeSorted_perm
    refine ⟨h.wf.mergeSorted hfresh, fun n hn => ?_, fun n hn => ?_, ?_⟩
    · obtain hn | hn := List.mem_append.mp (hperm.mem_iff.mp hn)
      · exact h.valid n hn
      · exact haddrs.valid n hn
    · obtain hn | hn := List.mem_append.mp (hperm.mem_iff.mp hn)
      · exact haddrs.grows _ (h.known n hn)
      · exact haddrs.known n hn
    · rw [(hperm.map _).nodup_iff, List.map_append, List.nodup_append]
      refine ⟨h.ips, haddrs.ips, fun a ha b hb heq => ?_⟩
      obtain ⟨m, hm, rfl⟩ := List.mem_map.mp ha
      obtain ⟨k, hk, rfl⟩ := List.mem_map.mp hb
      exact haddrs.fresh k hk _ (h.known m hm) (h.valid m hm) heq
  obtain ⟨m, hm, heq⟩ := shrink_sublist ((cc.takeNew items).1.mergeSorted (cc.takeNew items).2)
  change Sound (shrink _)
  rw [heq]
  exact hmerged.sublist hm

theorem Sound.step (h : Sound cc) {s : Step} (hs : s.Valid) : Sound (cc.step s) := by
  cases s with
  | add items => exact h.add hs
  | remove id => exact h.sublist List.eraseP_sublist
  | setSent id now => exact h.modify id fun _ => rfl
  | clearSent id => exact h.modify id fun _ => rfl

theorem Sound.run (h : Sound cc) {steps : List Step} (hs : ∀ s ∈ steps, s.Valid) :
    Sound (cc.run steps) := by
  induction steps generalizing cc with
  | nil => exact h
  | cons s steps ih =>
    obtain ⟨hs, hlater⟩ := List.forall_mem_cons.mp hs
    exact ih (h.step hs) hlater

/-! ## The order of the candidates -/

/-- What `candidateOrder` compares: fewer requests first, then the distance. -/
def orderKey (t : Id) (n : CandidateNode) : ℤ ×ₗ Id := toLex (n.pinged, t.distance n.nodeId)

theorem candidateOrder_le_iff {t : Id} {a b : CandidateNode} :
    candidateOrder t a b ≤ 0 ↔ orderKey t a ≤ orderKey t b := by
  unfold candidateOrder orderKey
  rw [Prod.Lex.toLex_le_toLex]
  dsimp only
  split_ifs with hne hneg
  · exact iff_of_true (by decide) (.inl (by omega))
  · refine iff_of_false (by decide) ?_
    rintro (hlt | ⟨heq, -⟩)
    · omega
    · omega
  · rw [Id.threeWayCompare_le_iff_distance]
    have heq : a.pinged = b.pinged := by omega
    simp [heq]

theorem candidateOrder_neg_iff {t : Id} {a b : CandidateNode} :
    candidateOrder t a b < 0 ↔ orderKey t a < orderKey t b := by
  unfold candidateOrder orderKey
  rw [Prod.Lex.toLex_lt_toLex]
  dsimp only
  split_ifs with hne hneg
  · exact iff_of_true (by decide) (.inl (by omega))
  · refine iff_of_false (by decide) ?_
    rintro (hlt | ⟨heq, -⟩)
    · omega
    · omega
  · rw [Id.threeWayCompare_neg_iff, ← Id.distance_lt_iff]
    have heq : a.pinged = b.pinged := by omega
    simp [heq]

/-- Candidates with different ids, sorted by `candidateOrder`. -/
theorem pairwise_sortByOrder (t : Id) {l : List CandidateNode} (hnd : (l.map (·.nodeId)).Nodup) :
    (sortByOrder t l).Pairwise fun a b => candidateOrder t a b < 0 := by
  have htotal : Std.Total fun a b : CandidateNode => candidateOrder t a b ≤ 0 := ⟨fun a b => by
    rw [candidateOrder_le_iff, candidateOrder_le_iff]
    exact le_total _ _⟩
  have htrans : IsTrans CandidateNode fun a b => candidateOrder t a b ≤ 0 :=
    ⟨fun a b c hab hbc => by
      rw [candidateOrder_le_iff] at hab hbc ⊢
      exact hab.trans hbc⟩
  have hperm := List.perm_insertionSort (fun a b => candidateOrder t a b ≤ 0) l
  have hne := List.pairwise_map.mp ((hperm.map (·.nodeId)).nodup_iff.mpr hnd)
  refine ((List.pairwise_insertionSort (fun a b => candidateOrder t a b ≤ 0) l).and hne).imp
    fun {a b} hab => ?_
  rw [candidateOrder_neg_iff]
  refine lt_of_le_of_ne (candidateOrder_le_iff.mp hab.1) fun heq => hab.2 ?_
  exact Id.distance_injective t (congrArg (fun k => (ofLex k).2) heq)

/-- The candidates that are not in flight. -/
def idle (cc : ClosestCandidates) : List CandidateNode := cc.closest.filter (!·.isInFlight)

theorem WF.idle_nodup (h : WF cc) : (cc.idle.map (·.nodeId)).Nodup :=
  h.nodup.sublist (List.filter_sublist.map _)

theorem mem_foldl_remove (h : WF cc) (l : List CandidateNode) :
    n ∈ (l.foldl (fun c m => c.remove m.nodeId) cc).closest ↔ n ∈ cc.closest ∧ ∀ m ∈ l,
      n.nodeId ≠ m.nodeId := by
  induction l generalizing cc with
  | nil => simp
  | cons m l ih =>
    rw [List.foldl_cons, ih (h.remove m.nodeId), h.mem_remove, List.forall_mem_cons, and_assoc]

/-- Past the capacity the least candidates of those that are not in flight stay, and all that
are. -/
theorem mem_shrink (h : WF cc) : n ∈ cc.shrink.closest ↔
    n ∈ cc.closest ∧
      (n.isInFlight = true ∨ n ∈ (sortByOrder cc.target cc.idle).take cc.capacity) := by
  have hperm : (sortByOrder cc.target cc.idle).Perm cc.idle := List.perm_insertionSort _ _
  have hidle (hn : n ∈ cc.closest) (hnot : ¬ n.isInFlight = true) :
      n ∈ sortByOrder cc.target cc.idle :=
    hperm.mem_iff.mpr (List.mem_filter.mpr ⟨hn, by simpa using hnot⟩)
  have hfew (hle : cc.idle.length ≤ cc.capacity) : n ∈ cc.closest ↔
      n ∈ cc.closest ∧
        (n.isInFlight = true ∨ n ∈ (sortByOrder cc.target cc.idle).take cc.capacity) := by
    rw [List.take_of_length_le (hperm.length_eq.trans_le hle)]
    exact ⟨fun hn => ⟨hn, or_iff_not_imp_left.mpr (hidle hn)⟩, And.left⟩
  unfold shrink
  dsimp only
  split_ifs with hlong hmany
  · change n ∈ (((sortByOrder cc.target cc.idle).drop cc.capacity).foldl _ cc).closest ↔ _
    rw [mem_foldl_remove h]
    refine and_congr_right fun hn => ⟨fun hall => ?_, ?_⟩
    · refine or_iff_not_imp_left.mpr fun hnot => ?_
      have hsorted := hidle hn hnot
      rw [← List.take_append_drop cc.capacity (sortByOrder cc.target cc.idle),
        List.mem_append] at hsorted
      exact hsorted.resolve_right fun hdrop => hall n hdrop rfl
    · rintro (hflight | htake) m hm heq
      · -- the removed ones are others, as they are not in flight
        obtain ⟨hmem, hmidle⟩ := List.mem_filter.mp (hperm.mem_iff.mp (List.mem_of_mem_drop hm))
        have hsame : n = m := List.inj_on_of_nodup_map h.nodup hn hmem heq
        rw [← hsame, hflight] at hmidle
        cases hmidle
      · have hnodup : ((sortByOrder cc.target cc.idle).map (·.nodeId)).Nodup :=
          (hperm.map _).nodup_iff.mpr h.idle_nodup
        rw [← List.take_append_drop cc.capacity (sortByOrder cc.target cc.idle),
          List.map_append] at hnodup
        exact (List.nodup_append.mp hnodup).2.2 _ (List.mem_map_of_mem htake) _
          (List.mem_map_of_mem hm) heq
  · exact hfew (not_lt.mp hmany)
  · exact hfew ((List.length_filter_le _ _).trans (by omega))

/-- The nodes of a call of `add` that were not seen before. -/
def accepted (cc : ClosestCandidates) (items : List NodeRef) : List CandidateNode :=
  (cc.takeNew items).2

/-- What `add` keeps: all that are in flight; and of those that are not, with the accepted ones, all
if there are no more than the capacity, and the least otherwise. -/
structure Keeps (cc : ClosestCandidates) (items : List NodeRef) : Prop where
  subset : (cc.add items).closest ⊆ cc.closest ++ cc.accepted items
  inFlight : ∀ n ∈ cc.closest, n.isInFlight = true → n ∈ (cc.add items).closest
  bounded : (cc.add items).closest.length ≤ cc.capacity ∨ (cc.add items).idle.length ≤ cc.capacity
  least : KLeast (fun a b => candidateOrder cc.target a b < 0) cc.capacity
    ((cc.closest ++ cc.accepted items).filter (!·.isInFlight)) (cc.add items).idle

/-- Of the candidates that are not in flight the least ones stay. -/
theorem shrink_least (h : WF cc) {l : List CandidateNode} (hl : cc.idle.Perm l)
    (hwf : WF cc.shrink) :
    KLeast (fun a b => candidateOrder cc.target a b < 0) cc.capacity l cc.shrink.idle := by
  have hperm : (sortByOrder cc.target cc.idle).Perm cc.idle := List.perm_insertionSort _ _
  have hnodup : l.Nodup := hl.nodup_iff.mp h.idle_nodup.of_map
  refine (kLeast_take cc.capacity (hperm.trans hl) hnodup
    (pairwise_sortByOrder _ h.idle_nodup)).congr
    hwf.idle_nodup.of_map (fun n hn => ?_) (fun n hn => ?_)
  · obtain ⟨hmem, hidle⟩ := List.mem_filter.mp (hperm.mem_iff.mp (List.mem_of_mem_take hn))
    exact List.mem_filter.mpr ⟨(mem_shrink h).mpr ⟨hmem, .inr hn⟩, hidle⟩
  · obtain ⟨hmem, hidle⟩ := List.mem_filter.mp hn
    refine ((mem_shrink h).mp hmem).2.resolve_left fun hflight => ?_
    rw [hflight] at hidle
    cases hidle

theorem add_keeps (h : WF cc) (items : List NodeRef) : Keeps cc items := by
  have hfresh := takeNew_fresh cc items
  have hwf := h.mergeSorted hfresh
  have hperm : ((cc.takeNew items).1.mergeSorted (cc.takeNew items).2).closest.Perm
      (cc.closest ++ cc.accepted items) := hfresh.same.2.2 ▸ mergeSorted_perm
  have hleast := shrink_least hwf (hperm.filter _) (h.add items)
  have htarget : ((cc.takeNew items).1.mergeSorted (cc.takeNew items).2).target = cc.target :=
    hfresh.same.1
  have hcapacity : ((cc.takeNew items).1.mergeSorted (cc.takeNew items).2).capacity = cc.capacity :=
    hfresh.same.2.1
  have hadd : cc.add items = ((cc.takeNew items).1.mergeSorted (cc.takeNew items).2).shrink := rfl
  rw [htarget, hcapacity, ← hadd] at hleast
  refine ⟨fun n hn => ?_, fun n hn hflight => ?_, .inr ?_, hleast⟩
  · exact hperm.mem_iff.mp ((mem_shrink hwf).mp (hadd ▸ hn)).1
  · rw [hadd]
    exact (mem_shrink hwf).mpr ⟨hperm.mem_iff.mpr (List.mem_append_left _ hn), .inl hflight⟩
  · rw [hleast.length]
    exact min_le_left _ _

/-- The next candidate is the least one that is eligible. -/
theorem next_spec (h : WF cc) : (cc.next = none ↔ ∀ n ∈ cc.closest, n.isEligible = false) ∧
    ∀ n, cc.next = some n → n ∈ cc.closest ∧ n.isEligible = true ∧
      ∀ m ∈ cc.closest, m.isEligible = true → m ≠ n → candidateOrder cc.target n m < 0 := by
  refine ⟨next_eq_none, fun n hn => ?_⟩
  have hperm : (sortByOrder cc.target (cc.closest.filter (·.isEligible))).Perm _ :=
    List.perm_insertionSort _ _
  have hsorted := pairwise_sortByOrder cc.target
    (h.nodup.sublist (List.filter_sublist.map _) :
      ((cc.closest.filter (·.isEligible)).map (·.nodeId)).Nodup)
  unfold next at hn
  cases hs : sortByOrder cc.target (cc.closest.filter (·.isEligible)) with
  | nil => simp [hs] at hn
  | cons first rest =>
    rw [hs] at hn hperm hsorted
    cases hn
    obtain ⟨hmem, heligible⟩ := List.mem_filter.mp (hperm.mem_iff.mp List.mem_cons_self)
    refine ⟨hmem, heligible, fun m hm hme hne => ?_⟩
    have hrest := hperm.mem_iff.mpr (List.mem_filter.mpr ⟨hm, hme⟩)
    exact (List.pairwise_cons.mp hsorted).1 m ((List.mem_cons.mp hrest).resolve_left hne)

theorem run_target (cc : ClosestCandidates) (steps : List Step) :
    (cc.run steps).target = cc.target := by
  induction steps generalizing cc with
  | nil => rfl
  | cons s steps ih =>
    refine (ih (cc.step s)).trans ?_
    cases s with
    | add items => exact add_target cc items
    | _ => rfl

/-- After any sequence of steps: the candidates are strictly sorted by their distances, with
different ids and IPs; what the next `add` keeps; and what `next` returns. -/
theorem run_candidates (target : Id) (capacity : Nat) (steps : List Step)
    (hvalid : ∀ s ∈ steps, s.Valid) :
    let cc := run { target := target, capacity := capacity } steps
    cc.closest.Pairwise (fun a b => target.distance a.nodeId < target.distance b.nodeId) ∧
      (cc.closest.map (·.nodeId)).Nodup ∧ (cc.closest.map fun n => n.sockaddr.inaddr).Nodup ∧
      (∀ items, Keeps cc items) ∧
      (cc.next = none ↔ ∀ n ∈ cc.closest, n.isEligible = false) ∧
      ∀ n, cc.next = some n → n ∈ cc.closest ∧ n.isEligible = true ∧
        ∀ m ∈ cc.closest, m.isEligible = true → m ≠ n → candidateOrder target n m < 0 := by
  intro cc
  have hsound : Sound cc := (sound_empty target capacity).run hvalid
  have htarget : cc.target = target := run_target _ steps
  obtain ⟨hnone, hsome⟩ := next_spec hsound.wf
  rw [htarget] at hsome
  have hstrict : cc.closest.Pairwise fun a b => target.distance a.nodeId <
      target.distance b.nodeId := by
    have hne := List.pairwise_map.mp hsound.wf.nodup
    refine (hsound.wf.sorted.and hne).imp fun {a b} hab => ?_
    rw [htarget] at hab
    exact lt_of_le_of_ne hab.1 fun heq => hab.2 (Id.distance_injective target heq)
  exact ⟨hstrict, hsound.wf.nodup, hsound.ips, add_keeps hsound.wf, hnone, hsome⟩

/-- Three nodes, of which the second has the IP of the first, and one that is asked. -/
def markedSteps : List Step :=
  [.add [.info { nodeId := Id.zero.setByte 0 1, sockaddr := .inet ⟨[8, 8, 8, 1], rfl⟩ 1 },
      .info { nodeId := Id.zero.setByte 0 2, sockaddr := .inet ⟨[8, 8, 8, 1], rfl⟩ 2 },
      .info { nodeId := Id.zero.setByte 0 3, sockaddr := .inet ⟨[8, 8, 8, 3], rfl⟩ 1 }],
    .setSent (Id.zero.setByte 0 1) 1]

theorem run_candidates_marked :
    (run { target := Id.zero, capacity := 1 } markedSteps).closest.map (·.nodeId) =
    [Id.zero.setByte 0 1] ∧
      Keeps (run { target := Id.zero, capacity := 1 } markedSteps) [] := by
  refine ⟨by decide +kernel, (run_candidates Id.zero 1 markedSteps ?_).2.2.2.1 []⟩
  simp [markedSteps, Step.Valid, NodeRef.node, SocketAddress.isValid]

end ClosestCandidates

end Boson
