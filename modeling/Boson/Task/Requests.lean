import Boson.Task.Candidates
import Boson.Task.Progress

/-!
# Whom a lookup asks

A node is asked only while it is a candidate without a mark, and at most three times; `setSent`
marks it, and only a timeout takes the mark off. A node that responded or failed is no candidate any
more, or keeps its mark, and its id is known, so it does not become a candidate again.

* `sent`: the nodes that requests are sent to in a run, one after the other.
* `Requests log`: what the calls in flight and the candidates tell of the requests that were sent.
* `Spent id`: no request is sent to the node any more.
* `run_requests`: how often, and until when, a node is asked.

A mark is the time of the request, and 0 stands for none. The clock does not show 0, the start of
1970.
-/

namespace Boson

namespace LookupTask

variable {t t' t'' : LookupTask} {log : List Id} {id : Id} {now : UInt64} {freed : Id → Prop}

/-- The nodes that are sent a request in a step: the calls whose keys were given in it. No call ends
after the first one is sent. -/
def sentIn (self : LookupTask) (e : UInt64 × LookupEvent) : List Id :=
  ((self.step e).inFlight.filter (self.nextKey ≤ ·.key)).map (·.target)

/-- The nodes that requests are sent to, one after the other. -/
def sent (self : LookupTask) : List (UInt64 × LookupEvent) → List Id
  | [] => []
  | e :: events => self.sentIn e ++ (self.step e).sent events

/-- The node that responds or fails with an error. -/
def endedBy (self : LookupTask) : LookupEvent → Option Id
  | .call key (.responded _) | .call key .err => (self.inFlight.find? (·.key = key)).map (·.target)
  | _ => none

/-! ## What handling an event does -/

/-- No call starts or ends, and no candidate is marked. `freed` are those whose mark may be taken
off. -/
structure Follows (freed : Id → Prop) (t t' : LookupTask) : Prop where
  calls : t'.inFlight = t.inFlight
  nextKey : t'.nextKey = t.nextKey
  deaf : t.rx = false → t'.rx = false
  wf : t.closestCandidates.WF → t'.closestCandidates.WF
  grows : t.closestCandidates.dedupIds ⊆ t'.closestCandidates.dedupIds
  nodes : ∀ n ∈ t'.closestCandidates.closest,
    n.nodeId ∉ t.closestCandidates.dedupIds ∧ n.lastSent = 0 ∧ n.pinged = 0 ∨
      ∃ m ∈ t.closestCandidates.closest, m.nodeId = n.nodeId ∧ m.pinged = n.pinged ∧
        (m.lastSent = n.lastSent ∨ freed n.nodeId ∧ n.lastSent = 0)

namespace Follows

theorem of_candidates (h : t'.inFlight = t.inFlight) (hkey : t'.nextKey = t.nextKey)
    (hrx : t'.rx = t.rx)
    (hcandidates : t'.closestCandidates = t.closestCandidates) : Follows freed t t' where
  calls := h
  nextKey := hkey
  deaf := hrx.trans
  wf := by rw [hcandidates]; exact id
  grows := by rw [hcandidates]; exact fun _ h => h
  nodes n hn := .inr ⟨n, hcandidates ▸ hn, rfl, rfl, .inl rfl⟩

theorem refl (t : LookupTask) : Follows freed t t := of_candidates rfl rfl rfl rfl

theorem trans {t₁ t₂ t₃ : LookupTask} (h : Follows freed t₁ t₂) (h' : Follows freed t₂ t₃) :
    Follows freed t₁ t₃ where
  calls := h'.calls.trans h.calls
  nextKey := h'.nextKey.trans h.nextKey
  deaf hrx := h'.deaf (h.deaf hrx)
  wf hwf := h'.wf (h.wf hwf)
  grows := fun _ hid => h'.grows (h.grows hid)
  nodes n hn := by
    obtain ⟨hnew, hfresh⟩ | ⟨m, hm, hid, hpinged, hsent⟩ := h'.nodes n hn
    · exact .inl ⟨fun hold => hnew (h.grows hold), hfresh⟩
    obtain ⟨hnew, hzero, hnone⟩ | ⟨k, hk, hid', hpinged', hsent'⟩ := h.nodes m hm
    · refine .inl ⟨hid ▸ hnew, ?_, hpinged ▸ hnone⟩
      obtain hsent | ⟨-, hsent⟩ := hsent
      · rw [← hsent, hzero]
      · exact hsent
    · refine .inr ⟨k, hk, hid'.trans hid, hpinged'.trans hpinged, ?_⟩
      obtain hsent | hsent := hsent
      · rw [← hid, ← hsent]
        exact hsent'
      · exact .inr hsent

theorem addCandidates (t : LookupTask) (nodes : List NodeRef) :
    Follows freed t (t.addCandidates nodes) := by
  unfold LookupTask.addCandidates
  simp only
  split
  · refine ⟨rfl, rfl, id, fun h => h.add _, ClosestCandidates.dedupIds_subset_add _
      _, fun n hn => ?_⟩
    obtain hn | hn := ClosestCandidates.mem_add_cases hn
    · exact .inr ⟨n, hn, rfl, rfl, .inl rfl⟩
    · exact .inl hn
  · exact refl t

theorem addNodes (t : LookupTask) (nodes : List NodeInfo) : Follows freed t (t.addNodes nodes) := by
  unfold LookupTask.addNodes
  split
  · exact addCandidates t _
  · exact refl t

theorem terminate (t : LookupTask) (st : TaskState) : Follows freed t (t.terminate st) := by
  unfold LookupTask.terminate
  split
  · exact refl t
  · exact of_candidates rfl rfl rfl rfl

theorem cancel (t : LookupTask) : Follows freed t t.cancel := terminate t .canceled

theorem finishIfDone (t : LookupTask) : Follows freed t t.finishIfDone := by
  unfold LookupTask.finishIfDone
  split
  · exact terminate t _
  · exact refl t

theorem handleResult (t : LookupTask) (r : Responded) (result : LookupResult) :
    Follows freed t (t.handleResult r result) := by
  have hresult : Follows freed t { t with results := t.results ++ [result] } :=
    of_candidates rfl rfl rfl rfl
  unfold LookupTask.handleResult
  simp only
  split
  · exact hresult.trans (cancel _)
  · exact hresult

theorem foldl_handleResult (r : Responded) (nodes : List NodeInfo) (t : LookupTask) :
    Follows freed t (nodes.foldl (fun t n => t.handleResult r (.node n)) t) := by
  induction nodes generalizing t with
  | nil => exact refl t
  | cons n nodes ih => exact (handleResult t r _).trans (ih _)

/-- A candidate is taken out. -/
theorem remove (t : LookupTask) (id : Id) : Follows freed t (t.callError id) :=
  ⟨rfl, rfl, fun h => h, fun h => h.remove id, fun _ h => h,
    fun n hn => .inr ⟨n, List.mem_of_mem_eraseP hn, rfl, rfl, .inl rfl⟩⟩

theorem addResponder (t : LookupTask) (now : UInt64) (id : Id) (token : Int) :
    Follows freed t (t.addResponder now id token) := by
  unfold LookupTask.addResponder
  split
  · exact refl t
  · exact (remove t id).trans (of_candidates rfl rfl rfl rfl)

/-- A timeout takes out the candidate, or its mark. -/
theorem callTimeout (t : LookupTask) (id : Id) : Follows (· = id) t (t.callTimeout id) := by
  unfold LookupTask.callTimeout
  split
  · exact refl t
  · split
    · exact remove t id
    · refine ⟨rfl, rfl, fun h => h, fun h => h.modify id fun _ => rfl, fun _ h => h, fun n hn => ?_⟩
      obtain ⟨m, hm, rfl⟩ := List.mem_map.mp hn
      refine .inr ⟨m, hm, ?_⟩
      split_ifs with hid
      · exact ⟨rfl, rfl, .inr ⟨hid, rfl⟩⟩
      · exact ⟨rfl, rfl, .inl rfl⟩

theorem nodeResponsed (t : LookupTask) (now : UInt64) (id : Id) (r : Responded) :
    Follows freed t (t.nodeResponsed now id r) := by
  have hadd : Follows freed t (t.addResponder now id r.getToken) := addResponder t now id _
  unfold LookupTask.nodeResponsed
  simp only
  split
  · exact hadd
  · split
    · exact (hadd.trans (addNodes _ _)).trans (foldl_handleResult r _ _)
    · exact hadd

theorem valueResponsed (t : LookupTask) (now : UInt64) (id : Id) (r : Responded) :
    Follows freed t (t.valueResponsed now id r).1 := by
  have hadd : Follows freed t (t.addResponder now id r.getToken) := addResponder t now id _
  unfold LookupTask.valueResponsed
  simp only
  split
  · exact refl t
  · split
    · split
      · split
        · exact hadd
        · split_ifs
          · exact hadd
          · exact hadd
          · exact hadd
          · exact hadd.trans (handleResult _ r _)
      · exact hadd.trans (addNodes _ _)
    · exact hadd

theorem peerResponsed (t : LookupTask) (now : UInt64) (id : Id) (r : Responded) :
    Follows freed t (t.peerResponsed now id r) := by
  have hadd : Follows freed t (t.addResponder now id r.getToken) := addResponder t now id _
  unfold LookupTask.peerResponsed
  simp only
  split
  · exact refl t
  · split
    · split_ifs
      · exact hadd.trans (handleResult _ r _)
      · exact hadd
      · exact hadd.trans (addNodes _ _)
    · exact hadd

theorem callResponsed (t : LookupTask) (now : UInt64) (id : Id) (r : Responded) :
    Follows freed t (t.callResponsed now id r).1 := by
  unfold LookupTask.callResponsed
  split
  · exact nodeResponsed t now id r
  · exact valueResponsed t now id r
  · exact peerResponsed t now id r

end Follows

/-- The calls that go on while one of them is handled: all others, and itself if it is stalled. -/
def afterCall (self : LookupTask) (call : LookupCall) : CallEvent → LookupTask
  | .stalled => self
  | _ => { self with inFlight := self.inFlight.erase call }

/-- The mark that is taken off. -/
def Frees (call : LookupCall) : CallEvent → Id → Prop
  | .timeout, id => id = call.target
  | _, _ => False

theorem onStateChange_follows (t : LookupTask) (now : UInt64) (call : LookupCall) (e : CallEvent) :
    Follows (Frees call e) (t.afterCall call e) (t.onStateChange now call e).1 := by
  cases e with
  | stalled => exact .refl t
  | responded r =>
    unfold onStateChange
    simp only
    split
    · exact .refl _
    · exact .callResponsed _ now call.target r
  | err =>
    unfold onStateChange
    simp only
    split
    · exact .refl _
    · exact .remove _ call.target
  | timeout =>
    unfold onStateChange
    simp only
    split
    · exact .refl _
    · exact .callTimeout _ call.target

/-- A call is notified. -/
theorem handle_call_follows {key : Nat} {call : LookupCall}
    (hfind : t.inFlight.find? (·.key = key) = some call) (hrx : t.rx = true) (now : UInt64)
    (e : CallEvent) :
    Follows (Frees call e) (t.afterCall call e) (t.handle now (.call key e)).1 := by
  have hchange := onStateChange_follows t now call e
  simp only [handle, hfind, hrx, if_true]
  refine ⟨hchange.calls, hchange.nextKey, fun hdeaf => ?_, hchange.wf, hchange.grows, hchange.nodes⟩
  have hsame : (t.afterCall call e).rx = t.rx := by cases e <;> rfl
  rw [hsame, hrx] at hdeaf
  cases hdeaf

/-- An event is about the task as a whole, or about one of its calls. -/
theorem handle_follows (t : LookupTask) (now : UInt64) (e : LookupEvent) :
    Follows (fun _ => False) t (t.handle now e).1 ∨
      ∃ key ce call, e = .call key ce ∧ t.inFlight.find? (·.key = key) = some call ∧ t.rx = true ∧
        Follows (Frees call ce) (t.afterCall call ce) (t.handle now e).1 := by
  cases e with
  | inject nodes =>
    left
    unfold handle
    simp only
    split
    · exact .addCandidates t nodes
    · exact .refl t
  | start nodes =>
    left
    unfold handle
    simp only
    split
    · have hrunning : Follows (fun _ => False) t { t with state := .running, isRunning := true } :=
        .of_candidates rfl rfl rfl rfl
      exact hrunning.trans (.addCandidates _ nodes)
    · exact .refl t
  | cancel => exact .inl (.cancel t)
  | call key ce =>
    cases hfind : t.inFlight.find? (·.key = key) with
    | none =>
      left
      simp only [handle, hfind]
      exact .refl t
    | some call =>
      cases hrx : t.rx with
      | false =>
        left
        simp only [handle, hfind, hrx, Bool.false_eq_true, if_false]
        exact .refl t
      | true =>
        exact .inr ⟨key, ce, call, rfl, hfind, rfl, handle_call_follows hfind hrx now ce⟩

/-! ## What was sent so far -/

/-- The requests that were sent, as the task knows of them. -/
structure Requests (log : List Id) (t : LookupTask) : Prop where
  wf : t.closestCandidates.WF
  known : ∀ id ∈ log, id ∈ t.closestCandidates.dedupIds
  few : ∀ id, log.count id ≤ 3
  pinged : ∀ n ∈ t.closestCandidates.closest, n.pinged = log.count n.nodeId
  once : (t.inFlight.map (·.target)).Nodup
  sent : ∀ c ∈ t.inFlight, c.target ∈ log
  marked : ∀ c ∈ t.inFlight, ∀ n ∈ t.closestCandidates.closest, n.nodeId = c.target → n.lastSent ≠ 0
  keys : ∀ c ∈ t.inFlight, c.key < t.nextKey
  bounded : t.inFlight.length ≤ MAX_CONCURRENT_TASK_REQUESTS

/-- No request is sent to the node any more. -/
structure Spent (id : Id) (t : LookupTask) : Prop where
  known : id ∈ t.closestCandidates.dedupIds
  marked : ∀ n ∈ t.closestCandidates.closest, n.nodeId = id → n.lastSent ≠ 0
  gone : (∀ c ∈ t.inFlight, c.target ≠ id) ∨ t.rx = false

theorem new_requests (lookup : Lookup) : Requests [] (new lookup) where
  wf := ClosestCandidates.wf_empty _ _
  known := by simp
  few := by simp
  pinged n hn := by simp [new] at hn
  once := List.nodup_nil
  sent c hc := by simp [new] at hc
  marked c hc := by simp [new] at hc
  keys c hc := by simp [new] at hc
  bounded := Nat.zero_le _

/-- A mark stays on a known node that is not freed. -/
theorem Follows.marked (h : Follows freed t t') (hknown : id ∈ t.closestCandidates.dedupIds)
    (hfreed : ¬ freed id)
    (hmarked : ∀ n ∈ t.closestCandidates.closest, n.nodeId = id → n.lastSent ≠ 0) :
    ∀ n ∈ t'.closestCandidates.closest, n.nodeId = id → n.lastSent ≠ 0 := by
  rintro n hn rfl
  obtain ⟨hnew, -⟩ | ⟨m, hm, hid, -, hsent | ⟨hclear, -⟩⟩ := h.nodes n hn
  · exact absurd hknown hnew
  · rw [← hsent]
    exact hmarked m hm hid
  · exact absurd hclear hfreed

theorem Requests.follows (h : Requests log t) (hfollows : Follows freed t t')
    (hfreed : ∀ c ∈ t.inFlight, ¬ freed c.target) : Requests log t' where
  wf := hfollows.wf h.wf
  known id hid := hfollows.grows (h.known id hid)
  few := h.few
  pinged n hn := by
    obtain ⟨hnew, -, hnone⟩ | ⟨m, hm, hid, hpinged, -⟩ := hfollows.nodes n hn
    · rw [hnone, List.count_eq_zero_of_not_mem fun hlog => hnew (h.known _ hlog)]
      rfl
    · rw [← hpinged, ← hid]
      exact h.pinged m hm
  once := by rw [hfollows.calls]; exact h.once
  sent := by rw [hfollows.calls]; exact h.sent
  marked := by
    rw [hfollows.calls]
    intro c hc
    exact hfollows.marked (h.known _ (h.sent c hc)) (hfreed c hc) (h.marked c hc)
  keys := by rw [hfollows.calls, hfollows.nextKey]; exact h.keys
  bounded := by rw [hfollows.calls]; exact h.bounded

theorem Spent.follows (h : Spent id t) (hfollows : Follows freed t t')
    (hfreed : ¬ freed id) : Spent id t' where
  known := hfollows.grows h.known
  marked := hfollows.marked h.known hfreed h.marked
  gone := by
    rw [hfollows.calls]
    exact h.gone.imp_right hfollows.deaf

/-- A call has ended; no other call is to the same node. -/
theorem Requests.erase (h : Requests log t) {call : LookupCall} (hcall : call ∈ t.inFlight) :
    Requests log { t with inFlight := t.inFlight.erase call } ∧ ∀ c ∈ t.inFlight.erase call,
      c.target ≠ call.target := by
  have hsub : t.inFlight.erase call ⊆ t.inFlight := List.erase_subset
  refine ⟨⟨h.wf, h.known, h.few, h.pinged, ?_, fun c hc => h.sent c (hsub hc), fun c hc =>
    h.marked c (hsub hc),
    fun c hc => h.keys c (hsub hc), ?_⟩, fun c hc heq => ?_⟩
  · exact h.once.sublist (List.erase_sublist.map _)
  · exact le_trans List.erase_sublist.length_le h.bounded
  · obtain rfl : c = call := List.inj_on_of_nodup_map h.once (hsub hc) hcall heq
    exact List.Nodup.not_mem_erase h.once.of_map hc

theorem Requests.afterCall (h : Requests log t) {call : LookupCall} (hcall : call ∈ t.inFlight)
    (e : CallEvent) :
    Requests log (t.afterCall call e) ∧ ∀ c ∈ (t.afterCall call e).inFlight,
      ¬ Frees call e c.target := by
  obtain ⟨herase, hother⟩ := h.erase hcall
  cases e with
  | stalled => exact ⟨h, fun c _ => id⟩
  | timeout => exact ⟨herase, hother⟩
  | _ => exact ⟨herase, fun c _ => id⟩

theorem Requests.handle (h : Requests log t) (now : UInt64) (e : LookupEvent) :
    Requests log (t.handle now e).1 := by
  obtain hfollows | ⟨key, ce, call, -, hfind, -, hfollows⟩ := handle_follows t now e
  · exact h.follows hfollows fun c _ => id
  · obtain ⟨hafter, hfreed⟩ := h.afterCall (List.mem_of_find?_eq_some hfind) ce
    exact hafter.follows hfollows hfreed

theorem Spent.handle (h : Spent id t) (now : UInt64) (e : LookupEvent) :
    Spent id (t.handle now e).1 := by
  obtain hfollows | ⟨key, ce, call, -, hfind, hrx, hfollows⟩ := handle_follows t now e
  · exact h.follows hfollows fun hf => hf
  · have hother : ∀ c ∈ t.inFlight, c.target ≠ id := h.gone.resolve_right (by simp [hrx])
    have hafter : Spent id (t.afterCall call ce) := by
      cases ce with
      | stalled => exact h
      | _ => exact ⟨h.known, h.marked, .inl fun c hc => hother c (List.mem_of_mem_erase hc)⟩
    refine hafter.follows hfollows fun hf => ?_
    cases ce with
    | timeout => exact hother call (List.mem_of_find?_eq_some hfind) hf.symm
    | _ => exact hf

/-- A node that responds or fails is not asked again. -/
theorem Requests.spent (h : Requests log t) (now : UInt64) {e : LookupEvent}
    (hended : t.endedBy e = some id) :
    Spent id (t.handle now e).1 := by
  obtain ⟨key, ce, call, rfl, hfind, hafter, hfreed, rfl⟩ : ∃ key ce call, e = .call key ce ∧
      t.inFlight.find? (·.key = key) = some call ∧
      t.afterCall call ce = { t with inFlight := t.inFlight.erase call } ∧
        (∀ i, ¬ Frees call ce i) ∧
      id = call.target := by
    cases e with
    | call key ce =>
      cases ce with
      | responded r =>
        obtain ⟨call, hfind, rfl⟩ := Option.map_eq_some_iff.mp hended
        exact ⟨key, _, call, rfl, hfind, rfl, fun i hi => hi, rfl⟩
      | err =>
        obtain ⟨call, hfind, rfl⟩ := Option.map_eq_some_iff.mp hended
        exact ⟨key, _, call, rfl, hfind, rfl, fun i hi => hi, rfl⟩
      | _ => cases hended
    | _ => cases hended
  have hcall := List.mem_of_find?_eq_some hfind
  have hknown := h.known _ (h.sent call hcall)
  cases hrx : t.rx with
  | false =>
    -- the receive loop has ended: the task hears nothing of it, and sends nothing
    have heq : t.handle now (.call key ce) = (t, false) := by simp [LookupTask.handle, hfind, hrx]
    rw [heq]
    exact ⟨hknown, h.marked call hcall, .inr hrx⟩
  | true =>
    have hfollows := handle_call_follows hfind hrx now ce
    rw [hafter] at hfollows
    have hspent : Spent call.target { t with inFlight := t.inFlight.erase call } :=
      ⟨hknown, h.marked call hcall, .inl (h.erase hcall).2⟩
    exact hspent.follows hfollows (hfreed _)

/-! ## Sending -/

/-- What the next candidate is like: it has no mark, and was asked less than three times. -/
theorem Requests.next (h : Requests log t) {candidate : CandidateNode}
    (hnext : t.closestCandidates.next = some candidate) :
    candidate ∈ t.closestCandidates.closest ∧ candidate.lastSent = 0 ∧
      log.count candidate.nodeId < 3 := by
  obtain ⟨hmem, heligible, -⟩ := (ClosestCandidates.next_spec h.wf).2 candidate hnext
  obtain ⟨hunsent, htries⟩ : candidate.lastSent = 0 ∧ candidate.pinged < 3 := by
    simpa [CandidateNode.isEligible] using heligible
  have hcount := h.pinged candidate hmem
  exact ⟨hmem, hunsent, by omega⟩

/-- A candidate after `sendCall` is another one, or is marked and was asked once more. -/
theorem mem_sendCall {candidate n : CandidateNode}
    (hn : n ∈ (t.sendCall now candidate).closestCandidates.closest) :
    n ∈ t.closestCandidates.closest ∧ n.nodeId ≠ candidate.nodeId ∨
      n.nodeId = candidate.nodeId ∧ n.lastSent = now ∧
        ∃ m ∈ t.closestCandidates.closest, m.nodeId = candidate.nodeId ∧
          n.pinged = m.pinged + 1 := by
  obtain ⟨m, hm, rfl⟩ := List.mem_map.mp hn
  split_ifs with hid
  · exact .inr ⟨hid, rfl, m, hm, hid, rfl⟩
  · exact .inl ⟨hm, hid⟩

theorem mem_sendCall_inFlight {candidate : CandidateNode} {c : LookupCall}
    (hc : c ∈ (t.sendCall now candidate).inFlight) :
    c ∈ t.inFlight ∨ c = { key := t.nextKey, target := candidate.nodeId } :=
  (List.mem_append.mp hc).imp_right List.mem_singleton.mp

/-- No call to the next candidate is in flight, since it has no mark. -/
theorem Requests.sendCall (h : Requests log t) {candidate : CandidateNode} (hnow : now ≠ 0)
    (hnext : t.closestCandidates.next = some candidate)
    (hroom : t.inFlight.length < MAX_CONCURRENT_TASK_REQUESTS) :
    Requests (log ++ [candidate.nodeId]) (t.sendCall now candidate) := by
  obtain ⟨hmem, hunsent, htries⟩ := h.next hnext
  refine ⟨h.wf.modify _ fun _ => rfl, fun id hid => ?_, fun id => ?_, fun n hn => ?_,
    ?_, fun c hc => ?_,
    fun c hc n hn hid => ?_, fun c hc => ?_, ?_⟩
  · rcases List.mem_append.mp hid with hid | hid
    · exact h.known id hid
    · rw [List.mem_singleton.mp hid]
      exact h.wf.known candidate hmem
  · by_cases heq : candidate.nodeId = id
    · rw [← heq, List.count_append, List.count_singleton_self]
      omega
    · rw [List.count_append, List.count_eq_zero_of_not_mem (fun hone =>
        heq (List.mem_singleton.mp hone).symm)]
      exact h.few id
  · rcases mem_sendCall hn with ⟨hn, hne⟩ | ⟨hid, -, m, hm, hmid, hpinged⟩
    · rw [List.count_append, List.count_eq_zero_of_not_mem (fun hone =>
        hne (List.mem_singleton.mp hone))]
      exact h.pinged n hn
    · have hbefore := h.pinged m hm
      rw [hmid] at hbefore
      rw [hid, hpinged, hbefore, List.count_append, List.count_singleton_self]
      omega
  · show ((t.inFlight ++ [_]).map LookupCall.target).Nodup
    rw [List.map_append, List.nodup_append]
    refine ⟨h.once, List.nodup_singleton _, fun a ha b hb => ?_⟩
    obtain ⟨c, hc, rfl⟩ := List.mem_map.mp ha
    rw [List.mem_singleton.mp hb]
    exact fun heq => h.marked c hc candidate hmem heq.symm hunsent
  · rcases mem_sendCall_inFlight hc with hc | rfl
    · exact List.mem_append_left _ (h.sent c hc)
    · exact List.mem_append_right _ (List.mem_singleton_self _)
  · rcases mem_sendCall hn with ⟨hn, hne⟩ | ⟨-, hsent, -⟩
    · rcases mem_sendCall_inFlight hc with hc | rfl
      · exact h.marked c hc n hn hid
      · exact absurd hid hne
    · rw [hsent]
      exact hnow
  · rcases mem_sendCall_inFlight hc with hc | rfl
    · exact Nat.lt_succ_of_lt (h.keys c hc)
    · exact Nat.lt_succ_self _
  · show (t.inFlight ++ [_]).length ≤ _
    rw [List.length_append, List.length_singleton]
    exact hroom

theorem Spent.sendCall (h : Spent id t) {candidate : CandidateNode} (hnow : now ≠ 0)
    (hne : candidate.nodeId ≠ id) :
    Spent id (t.sendCall now candidate) where
  known := h.known
  marked n hn hid := by
    rcases mem_sendCall hn with ⟨hn, -⟩ | ⟨-, hsent, -⟩
    · exact h.marked n hn hid
    · rw [hsent]
      exact hnow
  gone := by
    refine h.gone.imp_left fun hother c hc => ?_
    rcases mem_sendCall_inFlight hc with hc | rfl
    · exact hother c hc
    · exact hne

/-- The task makes calls, each to a node that may be asked. -/
structure Sends (log : List Id) (t : LookupTask) (calls : List LookupCall)
    (t' : LookupTask) : Prop where
  inFlight : t'.inFlight = t.inFlight ++ calls
  keys : ∀ c ∈ calls, t.nextKey ≤ c.key
  nextKey : t'.nextKey = t.nextKey + calls.length
  requests : Requests (log ++ calls.map (·.target)) t'
  spent : ∀ id, Spent id t → id ∉ calls.map (·.target) ∧ Spent id t'

namespace Sends

variable {u : LookupTask} {calls : List LookupCall}

theorem nil (h : Requests log t) : Sends log t [] t where
  inFlight := (List.append_nil _).symm
  keys := by simp
  nextKey := rfl
  requests := by simpa using h
  spent _ hid := ⟨List.not_mem_nil, hid⟩

theorem cons (h : Requests log t) {candidate : CandidateNode} (hnow : now ≠ 0)
    (hnext : t.closestCandidates.next = some candidate)
    (hlater : Sends (log ++ [candidate.nodeId]) (t.sendCall now candidate) calls t') :
    Sends log t ({ key := t.nextKey, target := candidate.nodeId } :: calls) t' where
  inFlight := by
    rw [hlater.inFlight]
    exact List.append_assoc _ _ _
  keys := List.forall_mem_cons.mpr ⟨le_refl _, fun c hc =>
    le_trans (Nat.le_succ _) (hlater.keys c hc)⟩
  nextKey := by
    rw [hlater.nextKey, List.length_cons]
    show t.nextKey + 1 + calls.length = _
    omega
  requests := by simpa using hlater.requests
  spent id hid := by
    obtain ⟨hmem, hunsent, -⟩ := h.next hnext
    have hne : candidate.nodeId ≠ id := fun heq => hid.marked candidate hmem heq hunsent
    obtain ⟨hnot, hspent⟩ := hlater.spent id (hid.sendCall hnow hne)
    refine ⟨?_, hspent⟩
    rw [List.map_cons, List.mem_cons, not_or]
    exact ⟨hne.symm, hnot⟩

/-- What happens before and after the calls frees no candidate. -/
theorem frame (hfirst : Follows (fun _ => False) t u) (h : Sends log u calls t')
    (hlast : Follows (fun _ => False) t' t'') : Sends log t calls t'' where
  inFlight := by rw [hlast.calls, h.inFlight, hfirst.calls]
  keys := by
    rw [← hfirst.nextKey]
    exact h.keys
  nextKey := by rw [hlast.nextKey, h.nextKey, hfirst.nextKey]
  requests := h.requests.follows hlast fun _ _ => id
  spent id hid := by
    obtain ⟨hnot, hspent⟩ := h.spent id (hid.follows hfirst fun hf => hf)
    exact ⟨hnot, hspent.follows hlast fun hf => hf⟩

end Sends

theorem Requests.update (h : Requests log t) (hnow : now ≠ 0) : ∃ calls,
    Sends log t calls (t.update now) := by
  fun_induction LookupTask.update t now generalizing log with
  | case1 t hroom hnext => exact ⟨[], .nil h⟩
  | case2 t hroom candidate hnext ih =>
    obtain ⟨calls, hcalls⟩ := ih (h.sendCall hnow hnext hroom)
    exact ⟨_, .cons h hnow hnext hcalls⟩
  | case3 t hfull => exact ⟨[], .nil h⟩

/-- The end of `serializedUpdate` frees no candidate. -/
theorem serializedUpdate_follows (t : LookupTask) (now : UInt64) :
    ∃ u, (u = t.finishIfDone ∨ u = t.finishIfDone.update now) ∧
      Follows (fun _ => False) u (t.serializedUpdate now) := by
  have hend (u : LookupTask) :
      Follows (fun _ => False) u (if u.isFinished then { u with isRunning := false } else u) := by
    split
    · exact .of_candidates rfl rfl rfl rfl
    · exact .refl u
  rw [serializedUpdate_eq]
  unfold afterChecks
  simp only
  split
  · exact ⟨_, .inr rfl, (Follows.finishIfDone _).trans (hend _)⟩
  · exact ⟨_, .inl rfl, hend _⟩

theorem Requests.serializedUpdate (h : Requests log t) (hnow : now ≠ 0) :
    ∃ calls, Sends log t calls (t.serializedUpdate now) := by
  have hfirst : Follows (fun _ => False) t t.finishIfDone := .finishIfDone t
  have hchecked := h.follows hfirst fun _ _ => id
  obtain ⟨u, rfl | rfl, hlast⟩ := serializedUpdate_follows t now
  · exact ⟨[], .frame hfirst (.nil hchecked) hlast⟩
  · obtain ⟨calls, hcalls⟩ := hchecked.update hnow
    exact ⟨calls, .frame hfirst hcalls hlast⟩

/-! ## Steps and runs -/

/-- One step: the calls it starts are all that `sentIn` has, and each of them is to a node that may
be asked. -/
theorem Requests.step (h : Requests log t) {e : UInt64 × LookupEvent} (hnow : e.1 ≠ 0) :
    (t.step e).nextKey = t.nextKey + (t.sentIn e).length ∧ Requests (log ++ t.sentIn e) (t.step e) ∧
      ∀ id, Spent id (t.handle e.1 e.2).1 → id ∉ t.sentIn e ∧ Spent id (t.step e) := by
  have hhandle := h.handle e.1 e.2
  have hkey : (t.handle e.1 e.2).1.nextKey = t.nextKey := by
    obtain hfollows | ⟨key, ce, call, -, -, -, hfollows⟩ := handle_follows t e.1 e.2
    · exact hfollows.nextKey
    · rw [hfollows.nextKey]
      cases ce <;> rfl
  have hold : (t.handle e.1 e.2).1.inFlight.filter (t.nextKey ≤ ·.key) = [] := by
    rw [List.filter_eq_nil_iff]
    intro c hc
    have := hhandle.keys c hc
    simp only [decide_eq_true_eq]
    omega
  cases hupdates : (t.handle e.1 e.2).2 with
  | false =>
    have hstep : t.step e = (t.handle e.1 e.2).1 := by simp [LookupTask.step, hupdates]
    have hnone : t.sentIn e = [] := by rw [sentIn, hstep, hold, List.map_nil]
    rw [hnone, hstep, List.append_nil]
    exact ⟨hkey, hhandle, fun id hid => ⟨List.not_mem_nil, hid⟩⟩
  | true =>
    have hstep : t.step e = (t.handle e.1 e.2).1.serializedUpdate e.1 := by
      simp [LookupTask.step, hupdates]
    obtain ⟨calls, hcalls⟩ := hhandle.serializedUpdate hnow
    have hkeys := hcalls.keys
    have hnextKey := hcalls.nextKey
    rw [hkey] at hkeys hnextKey
    have hall : t.sentIn e = calls.map (·.target) := by
      have hnew : calls.filter (t.nextKey ≤ ·.key) = calls :=
        List.filter_eq_self.mpr fun c hc => by simpa using hkeys c hc
      rw [sentIn, hstep, hcalls.inFlight, List.filter_append, hold, hnew, List.nil_append]
    rw [hall, hstep, List.length_map]
    exact ⟨hnextKey, hcalls.requests, hcalls.spent⟩

theorem Requests.run (h : Requests log t) {events : List (UInt64 × LookupEvent)}
    (hclock : ∀ e ∈ events, e.1 ≠ 0) :
    Requests (log ++ t.sent events) (t.run events) := by
  induction events generalizing t log with
  | nil => simpa [LookupTask.sent, LookupTask.run] using h
  | cons e events ih =>
    obtain ⟨hnow, hlater⟩ := List.forall_mem_cons.mp hclock
    have hrest := ih (h.step hnow).2.1 hlater
    rwa [List.append_assoc] at hrest

/-- A node that is not asked any more is not asked in any later step. -/
theorem Spent.run (h : Spent id t) (hrequests : Requests log t)
    {events : List (UInt64 × LookupEvent)}
    (hclock : ∀ e ∈ events, e.1 ≠ 0) : id ∉ t.sent events := by
  induction events generalizing t log with
  | nil => exact List.not_mem_nil
  | cons e events ih =>
    obtain ⟨hnow, hlater⟩ := List.forall_mem_cons.mp hclock
    obtain ⟨-, hstep, hspent⟩ := hrequests.step hnow
    obtain ⟨hnot, hafter⟩ := hspent id (h.handle e.1 e.2)
    rw [LookupTask.sent, List.mem_append, not_or]
    exact ⟨hnot, ih hafter hstep hlater⟩

/-- In every run a node is sent at most three requests, and none after it has responded or failed
with an error; and after every step the calls in flight are to different nodes, and at most ten.
Within a step calls end before the first one is sent, so there are never more than after it. -/
theorem run_requests (lookup : Lookup) (events : List (UInt64 × LookupEvent))
    (hclock : ∀ e ∈ events, e.1 ≠ 0) :
    (∀ id, ((new lookup).sent events).count id ≤ 3) ∧
      (∀ pre, pre <+: events → (((new lookup).run pre).inFlight.map (·.target)).Nodup ∧
        ((new lookup).run pre).inFlight.length ≤ MAX_CONCURRENT_TASK_REQUESTS) ∧
      ∀ pre e post id, events = pre ++ e :: post → ((new lookup).run pre).endedBy e.2 = some id →
        id ∉ ((new lookup).run pre).sent (e :: post) := by
  have hrun : ∀ pre, (∀ e ∈ pre, e.1 ≠ 0) →
      Requests ((new lookup).sent pre) ((new lookup).run pre) := by
    intro pre hpre
    simpa using (new_requests lookup).run hpre
  refine ⟨(hrun events hclock).few, fun pre hpre => ?_, fun pre e post id hevents hended => ?_⟩
  · have hafter := hrun pre fun e he => hclock e (hpre.subset he)
    exact ⟨hafter.once, hafter.bounded⟩
  · subst hevents
    obtain ⟨hpre, hrest⟩ := List.forall_mem_append.mp hclock
    obtain ⟨hnow, hpost⟩ := List.forall_mem_cons.mp hrest
    have hbefore := hrun pre hpre
    obtain ⟨-, hstep, hspent⟩ := hbefore.step hnow
    obtain ⟨hnot, hafter⟩ := hspent id (hbefore.spent e.1 hended)
    rw [LookupTask.sent, List.mem_append, not_or]
    exact ⟨hnot, hafter.run hstep hpost⟩

/-- The only candidate does not answer, is asked again, and fails at last. -/
def silent : List (UInt64 × LookupEvent) :=
  [(1, .start [.info (nodeAt 1)]), (2, .call 0 .timeout), (3, .call 1 .stalled),
    (4, .call 1 .timeout), (5, .call 2 .err)]

theorem run_requests_silent :
    (new (lookupAt .node 0x80)).sent silent = List.replicate 3 (nodeAt 1).nodeId ∧
      ((new (lookupAt .node 0x80)).sent silent).count (nodeAt 1).nodeId ≤ 3 := by
  refine ⟨by decide +kernel, (run_requests (lookupAt .node 0x80) silent ?_).1 (nodeAt 1).nodeId⟩
  simp [silent]

end LookupTask

end Boson
