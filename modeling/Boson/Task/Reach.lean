import Boson.Lib.Descent
import Boson.Task.Convergence
import Boson.Task.Dedup
import Boson.Task.Requests
import Boson.Task.Responses

/-!
# Lookups reach their target

A lookup among nodes that keep to the rules: each has one address that no other has, answers every
request, and lists nodes that are there too, among them one that is closer to the target than
itself.

* `World`: such nodes.
* `Reaching asked`: every node that the lookup heard of is a candidate or was asked, or a closer one
  is.
* `run_reaches`: the lookup asks a node that is closest to its target.

The closest set does not count here: it keeps the numerically lowest nodes (see `ClosestSet`). That
its last member, which `isDone` compares with the candidates, is one of the nodes asked is enough.
-/

namespace Boson

open Descent

/-- The nodes that a lookup may meet, each with its address. -/
structure World where
  nodes : Set Id
  address : Id → SocketAddress

namespace World

/-- The nodes are such as a lookup may ask: none of them is turned down by `addCandidates`, or for
the IP of another. -/
structure Sound (W : World) (lookup : Lookup) : Prop where
  bogon : ∀ u ∈ W.nodes, LookupTask.isBogonAddress (W.address u) = false
  notSelf : lookup.selfId ∉ W.nodes
  notSelfAddress : ∀ u ∈ W.nodes, W.address u ≠ lookup.selfAddress
  ips : ∀ u ∈ W.nodes, ∀ v ∈ W.nodes, (W.address u).SameIp (W.address v) → u = v

/-- A node that may be listed to the lookup: one of the world at its address, or the one that runs
the lookup. -/
def Lists (W : World) (lookup : Lookup) (n : NodeInfo) : Prop :=
  n.nodeId = lookup.selfId ∨ n.nodeId ∈ W.nodes ∧ n.sockaddr = W.address n.nodeId

end World

namespace LookupTask

/-- The nodes of a response. -/
def Responded.nodes (r : Responded) (network : Network) : List NodeInfo :=
  match r.response.lookupResponse? with
  | some l => l.getNodes network
  | none => []

/-- The response has nodes, and no value or peers in their place. -/
def Responded.onlyNodes (r : Responded) : Bool :=
  match r.response.content with
  | .findValueResponse _ v => !v.hasValue
  | .findPeerResponse _ peers => peers = []
  | _ => true

end LookupTask

namespace World

open LookupTask

/-- How the node `u` answers: to what it was asked, with nodes of the world, one of which is closer
to the target than itself unless it is the closest. -/
structure Answers (W : World) (lookup : Lookup) (u : Id) (r : Responded) : Prop where
  fits : r.fits u lookup.kind.method = true
  onlyNodes : r.onlyNodes = true
  lists : ∀ n ∈ r.nodes lookup.network, W.Lists lookup n
  closer : ∀ c ∈ W.nodes, lookup.target.distance c < lookup.target.distance u →
    ∃ n ∈ r.nodes lookup.network, n.nodeId ∈ W.nodes ∧
      lookup.target.distance n.nodeId < lookup.target.distance u

/-- What happens to a lookup in the world: nodes of it are injected, or found at the start, and
every call that ends is answered. -/
def Honest (W : World) (t : LookupTask) : LookupEvent → Prop
  | .inject nodes | .start nodes => ∀ r ∈ nodes, W.Lists t.toLookup r.node
  | .cancel => True
  | .call key (.responded r) =>
    ∀ call, t.inFlight.find? (·.key = key) = some call → W.Answers t.toLookup call.target r
  | .call _ .stalled => True
  | .call _ .err | .call _ .timeout => False

end World

namespace LookupTask

variable {W : World} {t t' : LookupTask} {asked log : List Id} {now : UInt64}

/-- The nodes whose answers the task has heard, one after the other. -/
def answerers (self : LookupTask) : List (UInt64 × LookupEvent) → List Id
  | [] => []
  | e :: events => ((self.delivered e.2).map (·.1.target)).toList ++ (self.step e).answerers events

/-- The ids of the candidates, and of the nodes that were asked. -/
def frontier (self : LookupTask) (asked : List Id) : Set Id :=
  { x | x ∈ asked ∨ ∃ n ∈ self.closestCandidates.closest, n.nodeId = x }

/-- What a lookup among the nodes of a world knows of them. -/
structure Reaching (W : World) (asked : List Id) (t : LookupTask) : Prop where
  target : t.closestCandidates.target = t.target
  roomy : 0 < t.closestCandidates.capacity ∧ 0 < t.closestSet.capacity
  known : ∀ id ∈ t.closestCandidates.dedupIds, id ∈ W.nodes
  addrs : ∀ a ∈ t.closestCandidates.dedupAddrs, ∃ id ∈ t.closestCandidates.dedupIds,
    W.address id = a
  fresh : ∀ n ∈ t.closestCandidates.closest, n.isInFlight = false → n.pinged = 0
  covered : ∀ id ∈ t.closestCandidates.dedupIds, Covers t.target.distance (t.frontier asked) id
  heard : ∀ u ∈ asked, u ∈ t.closestCandidates.dedupIds
  members : ∀ m ∈ t.closestSet.closest, m.nodeId ∈ asked
  sent : ∀ c ∈ t.inFlight, c.target ∈ t.closestCandidates.dedupIds
  once : asked.Nodup
  apart : ∀ u ∈ asked, (∀ n ∈ t.closestCandidates.closest, n.nodeId ≠ u) ∧
    ∀ c ∈ t.inFlight, c.target ≠ u

/-- Of every node that was asked and is not the closest, a closer one is known. -/
def Improves (W : World) (asked : List Id) (t : LookupTask) : Prop :=
  ∀ u ∈ asked, ∀ c ∈ W.nodes, t.target.distance c < t.target.distance u →
    ∃ e ∈ t.closestCandidates.dedupIds, t.target.distance e < t.target.distance u

theorem new_reaching (W : World) (lookup : Lookup) : Reaching W [] (new lookup) where
  target := rfl
  roomy := ⟨by simp [new, MAX_ENTRIES_PER_BUCKET], by simp [new, MAX_ENTRIES_PER_BUCKET]⟩
  known := by simp [new]
  addrs := by simp [new]
  fresh n hn := by simp [new] at hn
  covered := by simp [new]
  heard := by simp
  members m hm := by simp [new] at hm
  sent c hc := by simp [new] at hc
  once := List.nodup_nil
  apart := by simp

/-- The same nodes and calls. -/
structure SameNodes (t t' : LookupTask) : Prop where
  lookup : t'.toLookup = t.toLookup
  candidates : t'.closestCandidates = t.closestCandidates
  closestSet : t'.closestSet = t.closestSet
  calls : t'.inFlight = t.inFlight

theorem SameNodes.refl (t : LookupTask) : SameNodes t t := ⟨rfl, rfl, rfl, rfl⟩

theorem SameNodes.trans {t'' : LookupTask} (h : SameNodes t t') (h' : SameNodes t' t'') :
    SameNodes t t'' :=
  ⟨h'.lookup.trans h.lookup, h'.candidates.trans h.candidates, h'.closestSet.trans h.closestSet,
    h'.calls.trans h.calls⟩

theorem SameNodes.terminate (t : LookupTask) (st : TaskState) : SameNodes t (t.terminate st) := by
  unfold LookupTask.terminate
  split_ifs <;> exact ⟨rfl, rfl, rfl, rfl⟩

theorem SameNodes.finishIfDone (t : LookupTask) : SameNodes t t.finishIfDone := by
  unfold LookupTask.finishIfDone
  split_ifs
  · exact .terminate t _
  · exact .refl t

theorem SameNodes.handleResult (t : LookupTask) (r : Responded) (result : LookupResult) :
    SameNodes t (t.handleResult r result) := by
  have hresult : SameNodes t { t with results := t.results ++ [result] } := ⟨rfl, rfl, rfl, rfl⟩
  unfold LookupTask.handleResult
  dsimp only
  split_ifs
  · exact hresult.trans (.terminate _ _)
  · exact hresult

theorem SameNodes.foldl_handleResult (t : LookupTask) (r : Responded) (nodes : List NodeInfo) :
    SameNodes t (nodes.foldl (fun t n => t.handleResult r (.node n)) t) := by
  induction nodes generalizing t with
  | nil => exact .refl t
  | cons n nodes ih => exact (SameNodes.handleResult t r _).trans (ih _)

theorem Improves.grows (h : Improves W asked t) (htarget : t'.target = t.target)
    (hgrows : t.closestCandidates.dedupIds ⊆ t'.closestCandidates.dedupIds) :
    Improves W asked t' := by
  unfold Improves
  rw [htarget]
  exact fun u hu c hc hlt => (h u hu c hc hlt).imp fun e he => ⟨hgrows he.1, he.2⟩

theorem Improves.of_same (h : Improves W asked t) (hsame : SameNodes t t') : Improves W asked t' :=
  h.grows (congrArg Lookup.target hsame.lookup) (hsame.candidates ▸ List.Subset.refl _)

theorem Reaching.of_same (h : Reaching W asked t) (hsame : SameNodes t t') :
    Reaching W asked t' := by
  obtain ⟨hlookup, hcandidates, hset, hcalls⟩ := hsame
  have htarget : t'.target = t.target := congrArg Lookup.target hlookup
  refine ⟨?_, ?_, ?_, ?_, ?_, ?_, ?_, ?_, ?_, h.once, ?_⟩
  all_goals simp only [hcandidates, hset, hcalls, htarget, frontier]
  · exact h.target
  · exact h.roomy
  · exact h.known
  · exact h.addrs
  · exact h.fresh
  · exact h.covered
  · exact h.heard
  · exact h.members
  · exact h.sent
  · exact h.apart

/-! ## Candidates of the world -/

/-- A node of the world is turned down only if its id is known, or it was taken before. -/
theorem mem_seen_of_world {cc : ClosestCandidates} {items : List NodeRef} {lookup : Lookup}
    (hW : W.Sound lookup) (hknown : ∀ id ∈ cc.dedupIds, id ∈ W.nodes)
    (haddrs : ∀ a ∈ cc.dedupAddrs, ∃ id ∈ cc.dedupIds, W.address id = a)
    (hitems : ∀ r ∈ items, r.node.nodeId ∈ W.nodes ∧ r.node.sockaddr = W.address r.node.nodeId) :
    ∀ r ∈ items, r.node.nodeId ∈ cc.dedupIds ∨ ∃ m ∈ cc.taken items,
      m.node.nodeId = r.node.nodeId := by
  induction items using List.reverseRecOn with
  | nil => simp
  | append_singleton items item ih =>
    obtain ⟨hbefore, hitem⟩ := List.forall_mem_append.mp hitems
    obtain ⟨hmem, haddr⟩ := hitem item (List.mem_singleton_self item)
    have hearlier := ih hbefore
    have hold (r : NodeRef) (hr : r ∈ items) : r.node.nodeId ∈ cc.dedupIds ∨
        ∃ m ∈ cc.taken (items ++ [item]), m.node.nodeId = r.node.nodeId := by
      refine (hearlier r hr).imp_right fun ⟨m, hm, heq⟩ => ⟨m, ?_, heq⟩
      rw [ClosestCandidates.taken_concat]
      exact List.mem_append_left _ hm
    refine List.forall_mem_append.mpr ⟨hold, fun r hr => ?_⟩
    obtain rfl := List.mem_singleton.mp hr
    by_cases haccepts : (cc.seen items).accepts r
    · refine .inr ⟨r, ?_, rfl⟩
      rw [ClosestCandidates.taken_concat, if_pos haccepts]
      exact List.mem_append_right _ (List.mem_singleton_self r)
    · obtain hid | ⟨a, ha, hsame⟩ : r.node.nodeId ∈ (cc.seen items).dedupIds ∨
          ∃ a ∈ (cc.seen items).dedupAddrs, a.SameIp r.node.sockaddr := by
        by_contra hno
        push Not at hno
        exact haccepts hno
      · obtain hid | ⟨other, hother, heq⟩ := ClosestCandidates.mem_seen_dedupIds.mp hid
        · exact .inl hid
        · rw [← heq]
          exact hold other hother
      · -- the IP belongs to one node of the world
        have hsameId (id : Id) (hid : id ∈ W.nodes) (haddr' : W.address id = a) :
            id = r.node.nodeId :=
          hW.ips id hid _ hmem (by rw [haddr', ← haddr]; exact hsame)
        obtain ha | ⟨other, hother, heq⟩ := ClosestCandidates.mem_seen_dedupAddrs.mp ha
        · obtain ⟨id, hid, haddr'⟩ := haddrs a ha
          rw [← hsameId id (hknown id hid) haddr']
          exact .inl hid
        · obtain ⟨hother', haddr'⟩ := hbefore other (ClosestCandidates.taken_subset _ _ hother)
          rw [← hsameId _ hother' (haddr'.symm.trans heq)]
          exact hold other (ClosestCandidates.taken_subset _ _ hother)

/-- A candidate that has to go for others leaves a closer one. -/
theorem add_covers {cc : ClosestCandidates} (hwf : cc.WF) (hroom : 0 < cc.capacity)
    (hfresh : ∀ n ∈ cc.closest, n.isInFlight = false → n.pinged = 0) (items : List NodeRef)
    {n : CandidateNode} (hn : n ∈ cc.closest ++ cc.accepted items) :
    ∃ e ∈ (cc.add items).closest, cc.target.distance e.nodeId ≤ cc.target.distance n.nodeId := by
  have hkeeps := ClosestCandidates.add_keeps hwf items
  have hunasked : ∀ m ∈ cc.closest ++ cc.accepted items, m.isInFlight = false → m.pinged = 0 := by
    intro m hm hidle
    obtain hm | hm := List.mem_append.mp hm
    · exact hfresh m hm hidle
    · exact ((ClosestCandidates.takeNew_fresh cc items).fresh m hm).2.2.2
  have hidle_sub : ∀ m ∈ (cc.add items).idle, m ∈ (cc.add items).closest := fun m hm =>
      (List.mem_filter.mp hm).1
  cases hflight : n.isInFlight with
  | true =>
    obtain hold | hnew := List.mem_append.mp hn
    · exact ⟨n, hkeeps.inFlight n hold hflight, le_rfl⟩
    · have hzero := ((ClosestCandidates.takeNew_fresh cc items).fresh n hnew).2.2.1
      simp [CandidateNode.isInFlight, hzero] at hflight
  | false =>
    have hl : n ∈ (cc.closest ++ cc.accepted items).filter (!·.isInFlight) :=
      List.mem_filter.mpr ⟨hn, by simp [hflight]⟩
    by_cases hstays : n ∈ (cc.add items).idle
    · exact ⟨n, hidle_sub n hstays, le_rfl⟩
    · have hlen : 0 < (cc.add items).idle.length := by
        rw [hkeeps.least.length]
        exact lt_min hroom (List.length_pos_of_mem hl)
      obtain ⟨e, he⟩ := List.exists_mem_of_length_pos hlen
      have hbefore := hkeeps.least.least e he n hl hstays
      rw [ClosestCandidates.candidateOrder_neg_iff] at hbefore
      obtain ⟨hel, heidle⟩ := List.mem_filter.mp (hkeeps.least.subset he)
      have hpinged : e.pinged = n.pinged := by
        rw [hunasked e hel (by simpa using heidle), hunasked n hn hflight]
      refine ⟨e, hidle_sub e he, le_of_lt ?_⟩
      simpa [ClosestCandidates.orderKey, Prod.Lex.toLex_lt_toLex, hpinged] using hbefore

theorem capacity_add (cc : ClosestCandidates) (items : List NodeRef) :
    (cc.add items).capacity = cc.capacity := by
  obtain ⟨m, -, heq⟩ :=
    ClosestCandidates.shrink_sublist ((cc.takeNew items).1.mergeSorted (cc.takeNew items).2)
  change (ClosestCandidates.shrink _).capacity = _
  rw [heq]
  exact (ClosestCandidates.takeNew_fresh cc items).same.2.1

/-- Nodes of the world become candidates, or are known already. -/
theorem Reaching.add (h : Reaching W asked t) (hwf : t.closestCandidates.WF)
    (hW : W.Sound t.toLookup) {items : List NodeRef}
    (hitems : ∀ r ∈ items, r.node.nodeId ∈ W.nodes ∧ r.node.sockaddr = W.address r.node.nodeId) :
    Reaching W asked { t with closestCandidates := t.closestCandidates.add items } := by
  obtain ⟨hids, haddrs⟩ := ClosestCandidates.SameSets.add t.closestCandidates items
  have hgrows := ClosestCandidates.dedupIds_subset_add t.closestCandidates items
  have hseen := mem_seen_of_world hW h.known h.addrs hitems
  have hcovers {n : CandidateNode}
      (hn : n ∈ t.closestCandidates.closest ++ t.closestCandidates.accepted items) :
      Covers t.target.distance { x | x ∈ asked ∨ ∃ n ∈ (t.closestCandidates.add items).closest,
        n.nodeId = x }
        n.nodeId := by
    obtain ⟨e, he, hle⟩ := add_covers hwf h.roomy.1 h.fresh items hn
    rw [h.target] at hle
    exact ⟨e.nodeId, .inr ⟨e, he, rfl⟩, hle⟩
  have hold : ∀ e ∈ t.frontier asked, Covers t.target.distance
      { x | x ∈ asked ∨ ∃ n ∈ (t.closestCandidates.add items).closest, n.nodeId = x } e := by
    rintro e (he | ⟨n, hn, rfl⟩)
    · exact .of_mem (.inl he)
    · exact hcovers (List.mem_append_left _ hn)
  refine ⟨(ClosestCandidates.add_target _ _).trans h.target,
    ⟨(capacity_add _ _).symm ▸ h.roomy.1, h.roomy.2⟩,
    fun id hid => ?_, fun a ha => ?_, fun n hn hidle => ?_, fun id hid => ?_, fun u hu =>
      ?_, h.members,
    fun c hc => hgrows (h.sent c hc), h.once, fun u hu => ⟨fun n hn => ?_, (h.apart u hu).2⟩⟩
  · obtain hid | ⟨other, hother, rfl⟩ := ClosestCandidates.mem_seen_dedupIds.mp (hids ▸ hid)
    · exact h.known id hid
    · exact (hitems other hother).1
  · obtain ha | ⟨other, hother, rfl⟩ := ClosestCandidates.mem_seen_dedupAddrs.mp (haddrs ▸ ha)
    · obtain ⟨id, hid, heq⟩ := h.addrs a ha
      exact ⟨id, hgrows hid, heq⟩
    · have hother' := ClosestCandidates.taken_subset _ _ hother
      refine ⟨other.node.nodeId, ?_, (hitems other hother').2.symm⟩
      show _ ∈ (t.closestCandidates.add items).dedupIds
      rw [hids]
      exact ClosestCandidates.mem_seen_dedupIds.mpr (.inr ⟨other, hother', rfl⟩)
  · obtain hn | ⟨-, hnone⟩ := ClosestCandidates.mem_add hn
    · exact h.fresh n hn hidle
    · exact hnone
  · obtain hid | ⟨other, hother, rfl⟩ := ClosestCandidates.mem_seen_dedupIds.mp (hids ▸ hid)
    · exact (h.covered id hid).trans hold
    · obtain hid | ⟨m, hm, heq⟩ := hseen other hother
      · exact (h.covered _ hid).trans hold
      · rw [← heq, ← NodeRef.candidate_nodeId]
        refine hcovers (List.mem_append_right _ ?_)
        rw [ClosestCandidates.accepted, ClosestCandidates.takeNew_eq]
        exact List.mem_map_of_mem hm
  · exact hgrows (h.heard u hu)
  · obtain hn | ⟨hnew, -⟩ := ClosestCandidates.mem_add_cases hn
    · exact (h.apart u hu).1 n hn
    · rintro rfl
      exact hnew (h.heard _ hu)

/-- Listed nodes are offered to the candidates, and known afterwards, except for those that were
asked. -/
theorem Reaching.addCandidates (h : Reaching W asked t) (hwf : t.closestCandidates.WF)
    (hW : W.Sound t.toLookup) {nodes : List NodeRef}
    (hnodes : ∀ r ∈ nodes, W.Lists t.toLookup r.node) :
    Reaching W asked (t.addCandidates nodes) ∧ ∀ r ∈ nodes, r.node.nodeId ∈ W.nodes →
      r.node.nodeId ∈ (t.addCandidates nodes).closestCandidates.dedupIds := by
  unfold LookupTask.addCandidates
  set items := nodes.filter fun r =>
    !(isBogonAddress r.node.sockaddr || t.selfId == r.node.nodeId ||
      t.selfAddress == r.node.sockaddr || t.closestSet.contains r.node.nodeId) with hfilter
  have hitems : ∀ r ∈ items, r.node.nodeId ∈ W.nodes ∧
      r.node.sockaddr = W.address r.node.nodeId := by
    intro r hr
    obtain ⟨hr, hpasses⟩ := List.mem_filter.mp hr
    refine (hnodes r hr).resolve_left fun hself => ?_
    simp [hself] at hpasses
  have hoffered : ∀ r ∈ nodes, r.node.nodeId ∈ W.nodes →
      r ∈ items ∨ r.node.nodeId ∈ t.closestCandidates.dedupIds := by
    intro r hr hmem
    have hlisted : r.node.sockaddr = W.address r.node.nodeId := by
      refine ((hnodes r hr).resolve_left fun hself => ?_).2
      exact hW.notSelf (hself ▸ hmem)
    by_cases hset : t.closestSet.contains r.node.nodeId = true
    · obtain ⟨m, hm, heq⟩ := List.any_eq_true.mp hset
      rw [← beq_iff_eq.mp heq]
      exact .inr (h.heard _ (h.members m hm))
    · have hbogon := hW.bogon _ hmem
      have hself : t.selfId ≠ r.node.nodeId := fun heq => hW.notSelf (heq ▸ hmem)
      have haddress : t.selfAddress ≠ r.node.sockaddr := fun heq =>
          hW.notSelfAddress _ hmem (hlisted.symm.trans heq.symm)
      rw [← hlisted] at hbogon
      refine .inl (List.mem_filter.mpr ⟨hr, ?_⟩)
      simp [hbogon, hself, haddress, hset]
  have hadd := h.add hwf hW hitems
  dsimp only
  split_ifs with hne
  · refine ⟨hadd, fun r hr hmem => ?_⟩
    obtain hitem | hid := hoffered r hr hmem
    · show _ ∈ (t.closestCandidates.add items).dedupIds
      rw [(ClosestCandidates.SameSets.add _ _).ids]
      exact ClosestCandidates.mem_seen_dedupIds.mpr (.inr ⟨r, hitem, rfl⟩)
    · exact ClosestCandidates.dedupIds_subset_add _ _ hid
  · refine ⟨h, fun r hr hmem => (hoffered r hr hmem).resolve_left fun hitem => ?_⟩
    rw [not_not] at hne
    rw [hne] at hitem
    cases hitem

/-! ## Answers -/

/-- The node that answers is no candidate any more; it was asked. -/
theorem Reaching.addResponder (h : Reaching W asked t) (hlog : Requests log t) {call : LookupCall}
    (hcall : call ∈ t.inFlight) (now : UInt64) (token : Int) :
    Reaching W (asked ++ [call.target])
      ({ t with inFlight := t.inFlight.erase call }.addResponder now call.target token) := by
  obtain ⟨-, hothers⟩ := hlog.erase hcall
  have hcalls : ∀ c ∈ t.inFlight.erase call, c ∈ t.inFlight := fun c hc => List.mem_of_mem_erase hc
  have hnew : call.target ∉ asked := fun hmem => (h.apart _ hmem).2 call hcall rfl
  have honce : (asked ++ [call.target]).Nodup :=
    List.nodup_append.mpr ⟨h.once, List.nodup_singleton _, fun a ha b hb heq => by
      rw [List.mem_singleton.mp hb] at heq
      exact hnew (heq ▸ ha)⟩
  have hheard : ∀ u ∈ asked ++ [call.target], u ∈ t.closestCandidates.dedupIds :=
    List.forall_mem_append.mpr ⟨h.heard, by simpa using h.sent call hcall⟩
  unfold LookupTask.addResponder
  cases hget : t.closestCandidates.get call.target with
  | none =>
    have hgone := get_eq_none hget
    dsimp only
    refine ⟨h.target, h.roomy, h.known, h.addrs, h.fresh, fun id hid =>
      (h.covered id hid).mono ?_, hheard,
      fun m hm => List.mem_append_left _ (h.members m hm), fun c hc =>
        h.sent c (hcalls c hc), honce, ?_⟩
    · rintro x (hx | hx)
      · exact .inl (List.mem_append_left _ hx)
      · exact .inr hx
    · refine List.forall_mem_append.mpr ⟨fun u hu => ?_,
        List.forall_mem_singleton.mpr ⟨hgone, hothers⟩⟩
      exact ⟨(h.apart u hu).1, fun c hc => (h.apart u hu).2 c (hcalls c hc)⟩
  | some candidate =>
    dsimp only
    have hcid : candidate.nodeId = call.target := by simpa using List.find?_some hget
    have hmem (n : CandidateNode) : n ∈ (t.closestCandidates.remove call.target).closest ↔
        n ∈ t.closestCandidates.closest ∧ n.nodeId ≠ call.target := hlog.wf.mem_remove
    refine ⟨h.target, ⟨h.roomy.1, (ClosestSet.add_capacity ..).symm ▸ h.roomy.2⟩, h.known, h.addrs,
      fun n hn => h.fresh n ((hmem n).mp hn).1, fun id hid => (h.covered id hid).mono ?_,
        hheard, fun m hm => ?_,
      fun c hc => h.sent c (hcalls c hc), honce, ?_⟩
    · rintro x (hx | ⟨n, hn, rfl⟩)
      · exact .inl (List.mem_append_left _ hx)
      · by_cases hid : n.nodeId = call.target
        · exact .inl (by simp [hid])
        · exact .inr ⟨n, (hmem n).mpr ⟨hn, hid⟩, rfl⟩
    · obtain rfl | hm := ClosestSet.mem_add hm
      · exact List.mem_append_right _
          (by simp [CandidateNode.setToken, CandidateNode.setReplied, hcid])
      · exact List.mem_append_left _ (h.members m hm)
    · refine List.forall_mem_append.mpr ⟨fun u hu => ?_, List.forall_mem_singleton.mpr
        ⟨fun n hn => ((hmem n).mp hn).2, hothers⟩⟩
      exact ⟨fun n hn => (h.apart u hu).1 n ((hmem n).mp hn).1, fun c hc =>
        (h.apart u hu).2 c (hcalls c hc)⟩

/-- A response to the request of such a lookup. -/
def Carries (kind : LookupKind) (content : Content) : Prop :=
  match kind with
  | .node => ∃ l, content = .findNodeResponse l
  | .value => ∃ l v, content = .findValueResponse l v
  | .peer => ∃ l peers, content = .findPeerResponse l peers

theorem carries_of_fits {id : Id} {r : Responded} {kind : LookupKind}
    (h : r.fits id kind.method = true) :
    Carries kind r.response.content := by
  simp only [Responded.fits, Bool.and_eq_true, decide_eq_true_eq, Message.getType,
    Message.getMethod] at h
  obtain ⟨⟨-, htype⟩, hmethod⟩ := h
  cases kind <;> cases hc : r.response.content <;> simp_all [Carries, LookupKind.method]

/-- What an answer with nodes does: the node that answers has its place in the closest set, and the
nodes that it names are offered. -/
theorem callResponsed_nodes {id : Id} {r : Responded} (now : UInt64)
    (hfits : r.fits id t.kind.method = true) (honly : r.onlyNodes = true) :
    (t.callResponsed now id r).2 = false ∧
      SameNodes ((t.addResponder now id r.getToken).addNodes (r.nodes t.network))
        (t.callResponsed now id r).1 := by
  have hnetwork : (t.addResponder now id r.getToken).network = t.network :=
    congrArg Lookup.network (takes_addResponder t now id r.getToken).lookup
  have hresponse := carries_of_fits hfits
  cases hkind : t.kind with
  | node =>
    rw [hkind] at hfits hresponse
    obtain ⟨l, hcontent⟩ := hresponse
    have hnodes : r.nodes t.network = l.getNodes t.network := by
      simp [Responded.nodes, Message.lookupResponse?, hcontent]
    simp only [callResponsed, hkind, nodeResponsed, show r.fits id .findNode = true from hfits,
      hcontent, hnetwork, hnodes, Bool.not_true, Bool.false_eq_true, if_false, true_and]
    exact .foldl_handleResult _ r _
  | value =>
    rw [hkind] at hfits hresponse
    obtain ⟨l, v, hcontent⟩ := hresponse
    have hnodes : r.nodes t.network = l.getNodes t.network := by
      simp [Responded.nodes, Message.lookupResponse?, hcontent]
    have hnone : v.hasValue = false := by simpa [Responded.onlyNodes, hcontent] using honly
    simp only [callResponsed, hkind, valueResponsed, show r.fits id .findValue = true from hfits,
      hcontent, hnetwork, hnodes, hnone, Bool.not_true, Bool.false_eq_true, if_false, true_and]
    exact .refl _
  | peer =>
    rw [hkind] at hfits hresponse
    obtain ⟨l, peers, hcontent⟩ := hresponse
    have hnodes : r.nodes t.network = l.getNodes t.network := by
      simp [Responded.nodes, Message.lookupResponse?, hcontent]
    have hnone : peers = [] := by simpa [Responded.onlyNodes, hcontent] using honly
    simp only [callResponsed, hkind, peerResponsed, show r.fits id .findPeer = true from hfits,
      hcontent, hnetwork,
      hnodes, hnone, Bool.not_true, Bool.false_eq_true, if_false, true_and, ne_eq,
        not_true_eq_false]
    exact .refl _

/-- A node answers: it was asked, and whom it names is known. -/
theorem Reaching.answered (h : Reaching W asked t) (himproves : Improves W asked t)
    (hlog : Requests log t) (hW : W.Sound t.toLookup) {call : LookupCall}
    (hcall : call ∈ t.inFlight) {r : Responded} (hr : W.Answers t.toLookup call.target r)
    (now : UInt64) :
    let t' := ({ t with inFlight := t.inFlight.erase call }.callResponsed now call.target r).1
    Reaching W (asked ++ [call.target]) t' ∧ Improves W (asked ++ [call.target]) t' := by
  intro t'
  obtain ⟨-, hsame⟩ :=
    callResponsed_nodes (t := { t with inFlight := t.inFlight.erase call }) now hr.fits hr.onlyNodes
  have hmid := h.addResponder hlog hcall now r.getToken
  have hfollows : Follows (fun _ => False) { t with inFlight := t.inFlight.erase call }
      ({ t with inFlight := t.inFlight.erase call }.addResponder now call.target r.getToken) :=
        .addResponder _ _ _ _
  have hlog' := (hlog.erase hcall).1.follows hfollows fun _ _ => id
  have hlookup :=
    (takes_addResponder { t with inFlight := t.inFlight.erase call } now call.target
      r.getToken).lookup
  set u :=
    { t with inFlight := t.inFlight.erase call }.addResponder now call.target r.getToken with hu
  have hsound : W.Sound u.toLookup := hlookup ▸ hW
  have hlists : ∀ n ∈ r.nodes t.network, W.Lists u.toLookup n := hlookup ▸ hr.lists
  have hgrows : t.closestCandidates.dedupIds ⊆ u.closestCandidates.dedupIds := hfollows.grows
  -- the nodes of the response are offered
  have hadd : Reaching W (asked ++ [call.target]) (u.addNodes (r.nodes t.network)) ∧
      ∀ n ∈ r.nodes t.network, n.nodeId ∈ W.nodes →
        n.nodeId ∈ (u.addNodes (r.nodes t.network)).closestCandidates.dedupIds := by
    unfold LookupTask.addNodes
    split_ifs with hne
    · have hrefs : ∀ ref ∈ (r.nodes t.network).map NodeRef.info, W.Lists u.toLookup ref.node := by
        simpa [NodeRef.node] using hlists
      obtain ⟨hreaching, hknown⟩ := hmid.addCandidates hlog'.wf hsound hrefs
      exact ⟨hreaching, fun n hn => hknown (.info n) (List.mem_map_of_mem hn)⟩
    · rw [not_not] at hne
      exact ⟨hmid, by simp [hne]⟩
  have hoffers : Follows (fun _ => False) u (u.addNodes (r.nodes t.network)) := .addNodes _ _
  have hgrows' := hoffers.grows
  refine ⟨hadd.1.of_same hsame, Improves.of_same ?_ hsame⟩
  have htarget : (u.addNodes (r.nodes t.network)).target = t.target :=
    congrArg Lookup.target ((quiet_addNodes u _).lookup.trans hlookup)
  refine List.forall_mem_append.mpr ⟨(himproves.grows htarget fun _ hid => hgrows' (hgrows hid)),
    ?_⟩
  rintro v hv c hc hlt
  rw [List.mem_singleton.mp hv, htarget] at hlt ⊢
  obtain ⟨n, hn, hmem, hcloser⟩ := hr.closer c hc hlt
  exact ⟨n.nodeId, hadd.2 n hn hmem, hcloser⟩

/-! ## Events and updates -/

theorem Reaching.fewer (h : Reaching W asked t) {calls : List LookupCall}
    (hsub : calls ⊆ t.inFlight) :
    Reaching W asked { t with inFlight := calls } :=
  ⟨h.target, h.roomy, h.known, h.addrs, h.fresh, h.covered, h.heard, h.members, fun c hc =>
    h.sent c (hsub hc), h.once,
    fun u hu => ⟨(h.apart u hu).1, fun c hc => (h.apart u hu).2 c (hsub hc)⟩⟩

/-- A call that is notified changes what its handler changes. -/
theorem sameNodes_onStateChange {key : Nat} {call : LookupCall}
    (hfind : t.inFlight.find? (·.key = key) = some call) (hrx : t.rx = true) (now : UInt64)
    (e : CallEvent) :
    SameNodes (t.onStateChange now call e).1 (t.handle now (.call key e)).1 := by
  simp only [LookupTask.handle, hfind]
  rw [if_pos hrx]
  exact ⟨rfl, rfl, rfl, rfl⟩

/-- What happens before an update: a node that answers was asked. -/
theorem Reaching.handle (h : Reaching W asked t) (himproves : Improves W asked t)
    (hlog : Requests log t) (hW : W.Sound t.toLookup) (now : UInt64) {e : LookupEvent}
    (hhonest : W.Honest t e) :
    Reaching W (asked ++ ((t.delivered e).map (·.1.target)).toList) (t.handle now e).1 ∧
      Improves W (asked ++ ((t.delivered e).map (·.1.target)).toList) (t.handle now e).1 := by
  have hquiet (hsame : SameNodes t (t.handle now e).1) (hnone : t.delivered e = none) :
      Reaching W (asked ++ ((t.delivered e).map (·.1.target)).toList) (t.handle now e).1 ∧
        Improves W (asked ++ ((t.delivered e).map (·.1.target)).toList) (t.handle now e).1 := by
    rw [hnone, Option.map_none, Option.toList_none, List.append_nil]
    exact ⟨h.of_same hsame, himproves.of_same hsame⟩
  cases e with
  | inject nodes =>
    simp only [LookupTask.handle, delivered, Option.map_none, Option.toList_none, List.append_nil]
    split_ifs
    · have hoffers : Follows (fun _ => False) t (t.addCandidates nodes) := .addCandidates _ _
      have htarget := congrArg Lookup.target (quiet_addCandidates t nodes).lookup
      exact ⟨(h.addCandidates hlog.wf hW hhonest).1, himproves.grows htarget hoffers.grows⟩
    · exact ⟨h, himproves⟩
  | start nodes =>
    simp only [LookupTask.handle, delivered, Option.map_none, Option.toList_none, List.append_nil]
    have hsame : SameNodes t { t with state := .running, isRunning := true } := ⟨rfl, rfl, rfl, rfl⟩
    have hoffers : Follows (fun _ => False) { t with state := .running, isRunning := true }
        ({ t with state := .running, isRunning := true }.addCandidates nodes) := .addCandidates _ _
    split_ifs
    · have htarget := congrArg Lookup.target
        (quiet_addCandidates { t with state := .running, isRunning := true } nodes).lookup
      exact ⟨((h.of_same hsame).addCandidates hlog.wf hW hhonest).1,
        (himproves.of_same hsame).grows htarget hoffers.grows⟩
    · exact ⟨h, himproves⟩
  | cancel => exact hquiet (.terminate t _) rfl
  | call key ce =>
    cases hfind : t.inFlight.find? (·.key = key) with
    | none =>
      have hsame : (t.handle now (.call key ce)).1 = t := by simp [LookupTask.handle, hfind]
      refine hquiet (by rw [hsame]; exact .refl t) ?_
      cases ce <;> simp [delivered, hfind]
    | some call =>
      have hcall := List.mem_of_find?_eq_some hfind
      cases hrx : t.rx with
      | false =>
        have hsame : (t.handle now (.call key ce)).1 = t := by simp [LookupTask.handle, hfind, hrx]
        refine hquiet (by rw [hsame]; exact .refl t) ?_
        cases ce <;> simp [delivered, hrx]
      | true =>
        cases ce with
        | err => exact hhonest.elim
        | timeout => exact hhonest.elim
        | stalled => exact hquiet (sameNodes_onStateChange hfind hrx now .stalled) rfl
        | responded r =>
          have hchange := sameNodes_onStateChange hfind hrx now (.responded r)
          unfold onStateChange at hchange
          dsimp only at hchange
          cases hf : t.isFinished with
          | true =>
            have hnone : t.delivered (.call key (.responded r)) = none := by simp [delivered, hf]
            rw [if_pos (show LookupTask.isFinished { t with inFlight := t.inFlight.erase call } =
              true from hf)] at hchange
            rw [hnone, Option.map_none, Option.toList_none, List.append_nil]
            exact ⟨(h.fewer List.erase_subset).of_same hchange,
              Improves.of_same (t := { t with inFlight := t.inFlight.erase call })
                himproves hchange⟩
          | false =>
            have hsome : t.delivered (.call key (.responded r)) = some (call, r) := by
              simp [delivered, hrx, hf, hfind]
            have hgoes :
                ¬ LookupTask.isFinished { t with inFlight := t.inFlight.erase call } = true := by
              rw [Bool.not_eq_true]
              exact hf
            rw [if_neg hgoes] at hchange
            obtain ⟨hreaching, himproves'⟩ :=
              h.answered himproves hlog hW hcall (hhonest call hfind) now
            rw [hsome, Option.map_some, Option.toList_some]
            exact ⟨hreaching.of_same hchange, himproves'.of_same hchange⟩

theorem Reaching.sendCall (h : Reaching W asked t) (hnow : now ≠ 0) {candidate : CandidateNode}
    (hmem : candidate ∈ t.closestCandidates.closest) (hwf : t.closestCandidates.WF) :
    Reaching W asked (t.sendCall now candidate) := by
  have hids {n : CandidateNode} (hn : n ∈ (t.sendCall now candidate).closestCandidates.closest) :
      ∃ m ∈ t.closestCandidates.closest, m.nodeId = n.nodeId := by
    obtain ⟨m, hm, rfl⟩ := List.mem_map.mp hn
    refine ⟨m, hm, ?_⟩
    split_ifs <;> rfl
  refine ⟨h.target, h.roomy, h.known, h.addrs, fun n hn hidle => ?_, fun id hid =>
    (h.covered id hid).mono ?_, h.heard,
    h.members, fun c hc => ?_, h.once, fun u hu => ⟨fun n hn => ?_, fun c hc => ?_⟩⟩
  · obtain ⟨hn, -⟩ | ⟨-, hsent, -⟩ := mem_sendCall hn
    · exact h.fresh n hn hidle
    · simp [CandidateNode.isInFlight, hsent, hnow] at hidle
  · rintro x (hx | ⟨n, hn, rfl⟩)
    · exact .inl hx
    · refine .inr ⟨_, List.mem_map_of_mem hn, ?_⟩
      split_ifs <;> rfl
  · obtain hc | rfl := mem_sendCall_inFlight hc
    · exact h.sent c hc
    · exact hwf.known candidate hmem
  · obtain ⟨m, hm, heq⟩ := hids hn
    rw [← heq]
    exact (h.apart u hu).1 m hm
  · obtain hc | rfl := mem_sendCall_inFlight hc
    · exact (h.apart u hu).2 c hc
    · exact (h.apart u hu).1 candidate hmem

theorem Reaching.update (h : Reaching W asked t) (hlog : Requests log t) (hnow : now ≠ 0) :
    Reaching W asked (t.update now) := by
  fun_induction LookupTask.update t now generalizing log with
  | case1 t => exact h
  | case2 t hroom candidate hnext ih =>
    exact ih (h.sendCall hnow (hlog.next hnext).1 hlog.wf) (hlog.sendCall hnow hnext hroom)
  | case3 t => exact h

theorem Reaching.serializedUpdate (h : Reaching W asked t) (hlog : Requests log t)
    (hnow : now ≠ 0) :
    Reaching W asked (t.serializedUpdate now) := by
  have hchecked := h.of_same (.finishIfDone t)
  have hfollows : Follows (fun _ => False) t t.finishIfDone := .finishIfDone t
  have hlog' := hlog.follows hfollows fun _ _ => id
  have hend {u : LookupTask} (hu : Reaching W asked u) :
      Reaching W asked (if u.isFinished then { u with isRunning := false } else u) := by
    split_ifs
    · exact hu.of_same ⟨rfl, rfl, rfl, rfl⟩
    · exact hu
  rw [serializedUpdate_eq]
  refine hend ?_
  unfold afterChecks
  dsimp only
  split_ifs
  · exact (hchecked.update hlog' hnow).of_same (.finishIfDone _)
  · exact hchecked

/-! ## The end of a lookup -/

/-- Some node that was asked is closest to the target, if the lookup ever heard of a node. -/
def Reached (W : World) (asked : List Id) (t : LookupTask) : Prop :=
  t.closestCandidates.dedupIds ≠ [] → ∃ m ∈ asked, ∀ c ∈ W.nodes,
    t.target.distance m ≤ t.target.distance c

/-- A task that is done knows no candidate closer than the last member of its closest set, which was
asked. -/
theorem Reaching.reached (h : Reaching W asked t) (himproves : Improves W asked t)
    (hwf : t.closestCandidates.WF) (hdone : t.isDone = true) :
    Reached W asked t := by
  intro hsome
  simp only [isDone, Bool.and_eq_true, Bool.or_eq_true, decide_eq_true_eq] at hdone
  -- every candidate is covered by a node that was asked
  have hcandidates : ∀ n ∈ t.closestCandidates.closest,
      Covers t.target.distance { x | x ∈ asked } n.nodeId := by
    intro n hn
    obtain hnone | ⟨helig, hle⟩ := hdone.2
    · rw [List.length_eq_zero_iff.mp hnone] at hn
      cases hn
    · have hfull : t.closestSet.capacity ≤ t.closestSet.closest.length := by
        simp only [ClosestSet.isEligible, ClosestSet.reachedCapacity, Bool.and_eq_true,
          decide_eq_true_eq] at helig
        exact helig.1
      have hne : t.closestSet.closest ≠ [] :=
        List.ne_nil_of_length_pos (lt_of_lt_of_le h.roomy.2 hfull)
      have htail : t.closestSet.tail = (t.closestSet.closest.getLast hne).nodeId := by
        simp [ClosestSet.tail, List.getLast?_eq_some_getLast hne]
      have hhead := hwf.head_le hn
      rw [h.target] at hhead
      rw [htail, Id.threeWayCompare_le_iff_distance] at hle
      exact ⟨_, h.members _ (List.getLast_mem hne), hle.trans hhead⟩
  have hall : ∀ id ∈ t.closestCandidates.dedupIds,
      Covers t.target.distance { x | x ∈ asked } id := by
    refine fun id hid => (h.covered id hid).trans ?_
    rintro e (he | ⟨n, hn, rfl⟩)
    · exact .of_mem he
    · exact hcandidates n hn
  obtain ⟨id, hid⟩ := List.exists_mem_of_ne_nil _ hsome
  obtain ⟨m, hm, -⟩ := hall id hid
  refine exists_closest (List.ne_nil_of_mem hm) fun u hu c hc hlt => ?_
  obtain ⟨e, he, hcloser⟩ := himproves u hu c hc hlt
  exact ⟨e, hcloser, hall e he⟩

/-- A task that goes on waits for an answer. -/
def Busy (t : LookupTask) : Prop := t.state = .running → t.inFlight ≠ []

theorem not_mismatch_of_honest {e : LookupEvent} (h : W.Honest t e) : ¬ t.Mismatch e := by
  intro hmis
  cases e with
  | call key ce =>
    cases ce with
    | responded r =>
      obtain ⟨call, hfind, -, -, hignores⟩ := hmis
      have hfits := (h call hfind).fits
      obtain ⟨hkind, hnot⟩ | ⟨hkind, hnot⟩ := hignores <;>
      · rw [hkind] at hfits
        exact absurd hfits (by simpa [LookupKind.method] using hnot)
    | _ => exact hmis
  | _ => exact hmis

/-- An answer with nodes throws nothing. -/
theorem updates_of_honest {key : Nat} {call : LookupCall} {ce : CallEvent}
    (hfind : t.inFlight.find? (·.key = key) = some call) (hrx : t.rx = true)
    (h : W.Honest t (.call key ce)) :
    (t.handle now (.call key ce)).2 = true := by
  have hthrew : (t.onStateChange now call ce).2 = false := by
    cases ce with
    | responded r =>
      have hr := h call hfind
      unfold onStateChange
      dsimp only
      split_ifs
      · rfl
      · exact (callResponsed_nodes (t := { t with inFlight := t.inFlight.erase call }) now hr.fits
          hr.onlyNodes).1
    | _ => rfl
  simp only [LookupTask.handle, hfind]
  rw [if_pos hrx]
  simp [hthrew]

theorem Busy.step (h : Busy t) (hinv : Inv ∅ t) {e : UInt64 × LookupEvent}
    (hhonest : W.Honest t e.2) :
    Busy (t.step e) := by
  have hmis := not_mismatch_of_honest hhonest
  cases hupdates : (t.handle e.1 e.2).2 with
  | true =>
    have hstep : t.step e = (t.handle e.1 e.2).1.serializedUpdate e.1 := by
      simp [LookupTask.step, hupdates]
    have hsettled : Settled (t.step e) := by
      rw [hstep]
      exact serializedUpdate_settled (handle_inv hinv e.1 e.2 fun hm => absurd hm hmis)
    intro hrunning hidle
    obtain ⟨hfinished, -⟩ := hsettled hidle
    simp [isFinished, hrunning, TaskState.isTerminal] at hfinished
  | false =>
    have hstep : t.step e = (t.handle e.1 e.2).1 := by simp [LookupTask.step, hupdates]
    rw [hstep]
    obtain ⟨now, e⟩ := e
    cases e with
    | inject nodes =>
      simp only [LookupTask.handle]
      split_ifs with hst
      · obtain ⟨cc, heq, -⟩ := addCandidates_eq t nodes
        rw [heq]
        intro hrunning
        rw [hst] at hrunning
        cases hrunning
      · exact h
    | start nodes =>
      simp only [LookupTask.handle] at hupdates ⊢
      split_ifs at hupdates ⊢
      exact h
    | cancel =>
      simp only [LookupTask.handle, LookupTask.cancel, LookupTask.terminate]
      split_ifs
      · exact h
      · intro hrunning
        cases hrunning
    | call key ce =>
      cases hfind : t.inFlight.find? (·.key = key) with
      | none =>
        simp only [LookupTask.handle, hfind]
        exact h
      | some call =>
        cases hrx : t.rx with
        | false =>
          simp only [LookupTask.handle, hfind]
          rw [if_neg (by simp [hrx])]
          exact h
        | true =>
          rw [updates_of_honest hfind hrx hhonest] at hupdates
          cases hupdates

/-! ## Runs -/

/-- What holds after every event. -/
structure Reaches (W : World) (asked log : List Id) (t : LookupTask) : Prop where
  reaching : Reaching W asked t
  improves : Improves W asked t
  requests : Requests log t
  inv : Inv ∅ t
  busy : Busy t
  reached : t.state = .finished → Reached W asked t

theorem lookup_step (t : LookupTask) (e : UInt64 × LookupEvent) :
    (t.step e).toLookup = t.toLookup := by
  have hspec := step_spec t e
  cases hd : t.delivered e.2 with
  | none =>
    rw [hd] at hspec
    exact hspec.lookup
  | some cr =>
    rw [hd] at hspec
    exact hspec.lookup

theorem dedupIds_update (t : LookupTask) (now : UInt64) :
    (t.update now).closestCandidates.dedupIds = t.closestCandidates.dedupIds := by
  fun_induction LookupTask.update t now with
  | case1 t => rfl
  | case2 t hroom candidate hnext ih => exact ih
  | case3 t => rfl

/-- An update takes in no new node. -/
theorem dedupIds_serializedUpdate (t : LookupTask) (now : UInt64) :
    (t.serializedUpdate now).closestCandidates.dedupIds = t.closestCandidates.dedupIds := by
  have hchecked (u : LookupTask) : u.finishIfDone.closestCandidates = u.closestCandidates :=
    (SameNodes.finishIfDone u).candidates
  have hafter : (t.afterChecks now).closestCandidates.dedupIds = t.closestCandidates.dedupIds := by
    unfold afterChecks
    dsimp only
    split_ifs
    · rw [hchecked, dedupIds_update, hchecked]
    · rw [hchecked]
  rw [serializedUpdate_eq]
  split_ifs <;> exact hafter

theorem Reaches.step (h : Reaches W asked log t) (hW : W.Sound t.toLookup)
    {e : UInt64 × LookupEvent} (hnow : e.1 ≠ 0) (hhonest : W.Honest t e.2) :
    Reaches W (asked ++ ((t.delivered e.2).map (·.1.target)).toList)
      (log ++ t.sentIn e) (t.step e) := by
  obtain ⟨hreaching, himproves⟩ := h.reaching.handle h.improves h.requests hW e.1 hhonest
  have hlog := h.requests.handle e.1 e.2
  have hmis := not_mismatch_of_honest hhonest
  have hnext : Reaching W (asked ++ ((t.delivered e.2).map (·.1.target)).toList) (t.step e) ∧
      Improves W (asked ++ ((t.delivered e.2).map (·.1.target)).toList) (t.step e) := by
    unfold LookupTask.step
    dsimp only
    split_ifs
    · refine ⟨hreaching.serializedUpdate hlog hnow, himproves.grows ?_ ?_⟩
      · exact congrArg Lookup.target (quiet_serializedUpdate _ e.1).lookup
      · rw [dedupIds_serializedUpdate]
        exact List.Subset.refl _
    · exact ⟨hreaching, himproves⟩
  refine ⟨hnext.1, hnext.2, (h.requests.step hnow).2.1, step_inv h.inv e fun hm => absurd hm hmis,
    h.busy.step h.inv hhonest, fun hfin => ?_⟩
  by_cases hst : t.state = .finished
  · have hsame := step_of_finished h.inv hst e
    have hnone : t.delivered e.2 = none := by
      have hf : t.isFinished = true := by simp [isFinished, hst, TaskState.isTerminal]
      cases hd : t.delivered e.2 with
      | none => rfl
      | some cr =>
        obtain ⟨key, hkey⟩ := delivered_eq hd
        simp [hkey, delivered, hf] at hd
    rw [hsame, hnone, Option.map_none, Option.toList_none, List.append_nil]
    exact h.reached hst
  · obtain ⟨hupdate, hf, hdone⟩ := done_of_step_finished hst hfin
    have hstep : t.step e = (t.handle e.1 e.2).1.serializedUpdate e.1 := by
      simp [LookupTask.step, hupdate]
    have htarget : (t.handle e.1 e.2).1.target = t.target :=
      congrArg Lookup.target (quiet_step.lookup.symm.trans (lookup_step t e))
    rw [hstep, serializedUpdate_of_isDone hf hdone]
    exact hreaching.reached himproves hlog.wf hdone

theorem Reaches.run (h : Reaches W asked log t) (hW : W.Sound t.toLookup)
    {events : List (UInt64 × LookupEvent)} (hclock : ∀ e ∈ events, e.1 ≠ 0)
    (hhonest : ∀ pre e post, events = pre ++ e :: post → W.Honest (t.run pre) e.2) :
    ∃ log', Reaches W (asked ++ t.answerers events) log' (t.run events) := by
  induction events generalizing t asked log with
  | nil =>
    rw [answerers, List.append_nil]
    exact ⟨log, h⟩
  | cons e events ih =>
    obtain ⟨hnow, hlater⟩ := List.forall_mem_cons.mp hclock
    have hlookup := lookup_step t e
    have hstep := h.step hW hnow (hhonest [] e events rfl)
    obtain ⟨log', hrest⟩ := ih hstep (hlookup ▸ hW) hlater
      fun pre e' post heq => hhonest (e :: pre) e' post (by rw [heq, List.cons_append])
    rw [List.append_assoc] at hrest
    exact ⟨log', hrest⟩

/-- What a lookup has done, of which the nodes in `answered` have answered. -/
structure Found (W : World) (answered : List Id) (t : LookupTask) : Prop where
  /-- As long as it goes on, it waits for an answer. -/
  busy : t.state = .running → t.inFlight ≠ []
  /-- No node answers twice. -/
  once : answered.Nodup
  world : ∀ u ∈ answered, u ∈ W.nodes
  /-- When it has finished, a node that is closest to the target has answered. -/
  closest : t.state = .finished → t.closestCandidates.dedupIds ≠ [] →
    ∃ m ∈ answered, ∀ c ∈ W.nodes, t.target.distance m ≤ t.target.distance c

theorem found_of_honest (W : World) {lookup : Lookup} (hW : W.Sound lookup)
    {events : List (UInt64 × LookupEvent)} (hclock : ∀ e ∈ events, e.1 ≠ 0)
    (hhonest : ∀ pre e post, events = pre ++ e :: post → W.Honest ((new lookup).run pre) e.2) :
    Found W ((new lookup).answerers events) ((new lookup).run events) := by
  have hnew : Reaches W [] [] (new lookup) := by
    refine ⟨new_reaching W lookup, by simp [Improves], new_requests lookup, new_inv lookup, ?_, ?_⟩
    · intro h
      cases h
    · intro h
      cases h
  obtain ⟨log, hrun⟩ := hnew.run hW hclock hhonest
  rw [List.nil_append] at hrun
  exact ⟨hrun.busy, hrun.reaching.once, fun u hu =>
    hrun.reaching.known u (hrun.reaching.heard u hu), hrun.reached⟩

/-- A lookup among nodes that answer, where every node lists one that is closer to the target unless
it is the closest itself, asks a node that is closest to the target: the target, where it is one of
the nodes. -/
theorem run_reaches (W : World) (lookup : Lookup) (hW : W.Sound lookup)
    (events : List (UInt64 × LookupEvent)) (hclock : ∀ e ∈ events, e.1 ≠ 0)
    (hhonest : ∀ pre e post, events = pre ++ e :: post → W.Honest ((new lookup).run pre) e.2) :
    Found W ((new lookup).answerers events) ((new lookup).run events) :=
  found_of_honest W hW hclock hhonest

/-- Two nodes. -/
def twoNodes : World where
  nodes := {(nodeAt 1).nodeId, (nodeAt 0x80).nodeId}
  address id := if id = (nodeAt 1).nodeId then addressAt 1 else addressAt 0x80

/-- A lookup for `0x80...` starts with `0x01...`, which lists `0x80...`. -/
def twoAnswers : List (UInt64 × LookupEvent) :=
  [(1, .start [.info (nodeAt 1)]), (2, answer 0 1 (.findNodeResponse { nodes4 := [nodeAt 0x80] })),
    (3, answer 1 0x80 (.findNodeResponse {}))]

theorem twoNodes_sound : twoNodes.Sound (lookupAt .node 0x80) := by
  refine ⟨?_, ?_, ?_, ?_⟩
  · rintro u (rfl | rfl) <;> decide +kernel
  · rintro (h | h) <;> revert h <;> decide +kernel
  · rintro u (rfl | rfl) <;> decide +kernel
  · rintro u (rfl | rfl) v (rfl | rfl)
    · exact fun _ => rfl
    · decide +kernel
    · decide +kernel
    · exact fun _ => rfl

theorem run_reaches_twoAnswers : ((new (lookupAt .node 0x80)).run twoAnswers).state = .finished ∧
    Found twoNodes ((new (lookupAt .node 0x80)).answerers twoAnswers)
      ((new (lookupAt .node 0x80)).run twoAnswers) := by
  refine ⟨by decide +kernel, run_reaches twoNodes (lookupAt .node 0x80) twoNodes_sound twoAnswers
    (by simp [twoAnswers]) ?_⟩
  rintro (_ | ⟨_, _ | ⟨_, _ | ⟨_, pre⟩⟩⟩) e post heq
  · obtain ⟨rfl, -⟩ := List.cons.inj heq
    exact fun r hr => .inr (by rw [List.mem_singleton.mp hr]; exact ⟨.inl rfl, by decide +kernel⟩)
  · obtain ⟨rfl, htail⟩ := List.cons.inj heq
    obtain ⟨rfl, -⟩ := List.cons.inj htail
    intro call hfind
    have hcall : some { key := 0, target := (nodeAt 1).nodeId } = some call :=
      (by decide +kernel : _ = _).trans hfind
    obtain rfl := Option.some.inj hcall
    rw [lookup_run]
    refine ⟨by decide +kernel, rfl, fun n hn => .inr ?_, fun c hc hlt => ?_⟩
    · rw [List.mem_singleton.mp hn]
      exact ⟨.inr rfl, by decide +kernel⟩
    · exact ⟨nodeAt 0x80, List.mem_singleton_self _, .inr rfl, by decide +kernel⟩
  · obtain ⟨rfl, htail⟩ := List.cons.inj heq
    obtain ⟨rfl, hlast⟩ := List.cons.inj htail
    obtain ⟨rfl, -⟩ := List.cons.inj hlast
    intro call hfind
    have hcall : some { key := 1, target := (nodeAt 0x80).nodeId } = some call :=
      (by decide +kernel : _ = _).trans hfind
    obtain rfl := Option.some.inj hcall
    rw [lookup_run]
    refine ⟨by decide +kernel, rfl, fun n hn => absurd hn List.not_mem_nil, fun c hc hlt => ?_⟩
    -- `0x80...` is the target
    refine absurd hlt ?_
    obtain rfl | rfl := hc <;> decide +kernel
  · simp [twoAnswers] at heq

end LookupTask

end Boson
