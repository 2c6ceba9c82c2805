import Boson.Task.Dedup
import Boson.Task.Progress

/-!
# Addresses of the candidates (`LookupTask::addCandidates`)

All nodes come into a lookup through `addCandidates`, which leaves out those with a bogon address.

* `run_unicast`: in every run, neither the candidates nor the closest nodes of a lookup have a bogon
  address.
-/

namespace Boson

namespace ClosestCandidates

/-- A candidate after `add` is one from before, or one of those that were offered. -/
theorem mem_add_offered {cc : ClosestCandidates} {items : List NodeRef} {n : CandidateNode}
    (h : n ∈ (cc.add items).closest) : n ∈ cc.closest ∨ ∃ r ∈ items, n = r.candidate := by
  obtain ⟨m, hm, heq⟩ := shrink_sublist ((cc.takeNew items).1.mergeSorted (cc.takeNew items).2)
  change n ∈ (ClosestCandidates.shrink _).closest at h
  rw [heq] at h
  rcases mem_mergeSorted.mp (hm.subset h) with hn | hn
  · exact .inl ((takeNew_fresh cc items).same.2.2 ▸ hn)
  · rw [takeNew_eq] at hn
    obtain ⟨r, hr, rfl⟩ := List.mem_map.mp hn
    exact .inr ⟨r, taken_subset cc items hr, rfl⟩

end ClosestCandidates

theorem NodeRef.candidate_sockaddr (r : NodeRef) : r.candidate.sockaddr = r.node.sockaddr := by
    cases r <;> rfl

namespace LookupTask

/-- The candidates and the closest nodes have no bogon addresses. -/
structure Unicast (t : LookupTask) : Prop where
  candidates : ∀ n ∈ t.closestCandidates.closest, isBogonAddress n.sockaddr = false
  closest : ∀ n ∈ t.closestSet.closest, isBogonAddress n.sockaddr = false

namespace Unicast

variable {t t' : LookupTask} {now : UInt64} {id : Id} {r : Responded}

theorem new (lookup : Lookup) : (LookupTask.new lookup).Unicast where
  candidates n hn := by cases hn
  closest n hn := by cases hn

/-- A change of other fields. -/
theorem frame (h : t.Unicast) (hcandidates : t'.closestCandidates = t.closestCandidates)
    (hclosest : t'.closestSet = t.closestSet) : t'.Unicast where
  candidates := hcandidates ▸ h.candidates
  closest := hclosest ▸ h.closest

theorem addCandidates (h : t.Unicast) (nodes : List NodeRef) : (t.addCandidates nodes).Unicast := by
  unfold LookupTask.addCandidates
  dsimp only
  split_ifs
  · refine ⟨fun n hn => ?_, h.closest⟩
    rcases ClosestCandidates.mem_add_offered hn with hn | ⟨r, hr, rfl⟩
    · exact h.candidates n hn
    · rw [NodeRef.candidate_sockaddr]
      have hkept := (List.mem_filter.mp hr).2
      simp only [Bool.not_eq_true', Bool.or_eq_false_iff] at hkept
      exact hkept.1.1.1
  · exact h

theorem addNodes (h : t.Unicast) (nodes : List NodeInfo) : (t.addNodes nodes).Unicast := by
  unfold LookupTask.addNodes
  split_ifs
  · exact h.addCandidates _
  · exact h

theorem remove (h : t.Unicast) (id : Id) : (t.callError id).Unicast where
  candidates n hn := h.candidates n (List.mem_of_mem_eraseP hn)
  closest := h.closest

theorem modify (h : t.Unicast) (id : Id) {f : CandidateNode → CandidateNode}
    (hf : ∀ n, (f n).sockaddr = n.sockaddr) :
    ∀ n ∈ (t.closestCandidates.modify id f).closest, isBogonAddress n.sockaddr = false := by
  intro n hn
  obtain ⟨m, hm, rfl⟩ := List.mem_map.mp hn
  split_ifs
  · rw [hf]
    exact h.candidates m hm
  · exact h.candidates m hm

theorem terminate (h : t.Unicast) (state : TaskState) : (t.terminate state).Unicast := by
  unfold LookupTask.terminate
  split_ifs
  · exact h
  · exact h.frame rfl rfl

theorem finishIfDone (h : t.Unicast) : t.finishIfDone.Unicast := by
  unfold LookupTask.finishIfDone
  split_ifs
  · exact h.terminate _
  · exact h

theorem update (h : t.Unicast) : (t.update now).Unicast := by
  fun_induction LookupTask.update t now with
  | case1 => exact h
  | case2 t hlt candidate hnext ih => exact ih ⟨h.modify _ fun _ => rfl, h.closest⟩
  | case3 => exact h

theorem serializedUpdate (h : t.Unicast) : (t.serializedUpdate now).Unicast := by
  have hchecks : (t.afterChecks now).Unicast := by
    unfold LookupTask.afterChecks
    dsimp only
    split_ifs
    · exact h.finishIfDone.update.finishIfDone
    · exact h.finishIfDone
  rw [serializedUpdate_eq]
  split_ifs
  · exact hchecks.frame rfl rfl
  · exact hchecks

theorem handleResult (h : t.Unicast) (r : Responded) (result : LookupResult) :
    (t.handleResult r result).Unicast := by
  have hresult : { t with results := t.results ++ [result] }.Unicast := h.frame rfl rfl
  unfold LookupTask.handleResult
  dsimp only
  split_ifs
  · exact hresult.terminate _
  · exact hresult

theorem foldl_handleResult (h : t.Unicast) (r : Responded) (nodes : List NodeInfo) :
    (nodes.foldl (fun t n => t.handleResult r (.node n)) t).Unicast := by
  induction nodes generalizing t with
  | nil => exact h
  | cons n nodes ih => exact ih (h.handleResult r _)

/-- A node of the closest set was a candidate. -/
theorem addResponder (h : t.Unicast) (token : Int) : (t.addResponder now id token).Unicast := by
  unfold LookupTask.addResponder
  split
  · exact h
  · rename_i candidate hget
    refine ⟨(h.remove id).candidates, fun n hn => ?_⟩
    rcases ClosestSet.mem_add hn with rfl | hn
    · exact h.candidates candidate (List.mem_of_find?_eq_some hget)
    · exact h.closest n hn

theorem nodeResponsed (h : t.Unicast) : (t.nodeResponsed now id r).Unicast := by
  have hadd : (t.addResponder now id r.getToken).Unicast := h.addResponder _
  unfold LookupTask.nodeResponsed
  dsimp only
  split_ifs
  · exact hadd
  · split
    · exact (hadd.addNodes _).foldl_handleResult r _
    · exact hadd

theorem valueResponsed (h : t.Unicast) : (t.valueResponsed now id r).1.Unicast := by
  have hadd : (t.addResponder now id r.getToken).Unicast := h.addResponder _
  unfold LookupTask.valueResponsed
  dsimp only
  split_ifs
  · exact h
  · split
    · split_ifs
      · split
        · exact hadd
        · split_ifs
          · exact hadd
          · exact hadd
          · exact hadd
          · exact hadd.handleResult r _
      · exact hadd.addNodes _
    · exact hadd

theorem peerResponsed (h : t.Unicast) : (t.peerResponsed now id r).Unicast := by
  have hadd : (t.addResponder now id r.getToken).Unicast := h.addResponder _
  unfold LookupTask.peerResponsed
  dsimp only
  split_ifs
  · exact h
  · split
    · split_ifs
      · exact hadd.handleResult r _
      · exact hadd
      · exact hadd.addNodes _
    · exact hadd

theorem callTimeout (h : t.Unicast) (id : Id) : (t.callTimeout id).Unicast := by
  unfold LookupTask.callTimeout
  split
  · exact h
  · split_ifs
    · exact h.remove id
    · exact ⟨h.modify id fun _ => rfl, h.closest⟩

theorem onStateChange (h : t.Unicast) (call : LookupCall) (e : CallEvent) :
    (t.onStateChange now call e).1.Unicast := by
  have hended : { t with inFlight := t.inFlight.erase call }.Unicast := h.frame rfl rfl
  cases e with
  | responded r =>
    unfold LookupTask.onStateChange LookupTask.callResponsed
    dsimp only
    split_ifs
    · exact hended
    · split
      · exact hended.nodeResponsed
      · exact hended.valueResponsed
      · exact hended.peerResponsed
  | err =>
    unfold LookupTask.onStateChange
    dsimp only
    split_ifs
    · exact hended
    · exact hended.remove _
  | timeout =>
    unfold LookupTask.onStateChange
    dsimp only
    split_ifs
    · exact hended
    · exact hended.callTimeout _
  | stalled => exact h

theorem handle (h : t.Unicast) (e : LookupEvent) : (t.handle now e).1.Unicast := by
  cases e with
  | inject nodes =>
    show (if t.state = .initial then t.addCandidates nodes else t).Unicast
    split_ifs
    · exact h.addCandidates nodes
    · exact h
  | start nodes =>
    have hstart : { t with state := .running, isRunning := true }.Unicast := h.frame rfl rfl
    unfold LookupTask.handle
    dsimp only
    split_ifs
    · exact hstart.addCandidates nodes
    · exact h
  | cancel => exact h.terminate _
  | call key e =>
    unfold LookupTask.handle
    dsimp only
    split
    · split_ifs
      · exact (h.onStateChange _ e).frame rfl rfl
      · exact h
    · exact h

theorem step (h : t.Unicast) (e : UInt64 × LookupEvent) : (t.step e).Unicast := by
  unfold LookupTask.step
  dsimp only
  split_ifs
  · exact (h.handle e.2).serializedUpdate
  · exact h.handle e.2

end Unicast

/-- No run of a lookup takes a node with a bogon address. -/
theorem run_unicast (lookup : Lookup) (events : List (UInt64 × LookupEvent)) :
    ((new lookup).run events).Unicast := by
  induction events using List.reverseRecOn with
  | nil => exact .new lookup
  | append_singleton pre e ih =>
    rw [run, List.foldl_concat]
    exact ih.step e

end LookupTask

end Boson
