import Boson.KClosestNodes.Home
import Boson.Node.Responses

/-!
# Nodes that are silent (`DHT::onTimeout`, `KBucket::_onTimeout`)

A node goes offline. Nothing is heard of it any more, and every call to it times out. Its entry is
not removed at once: it may be back soon. The timeouts are counted in the entry, and the entry goes
with it from bucket to bucket when buckets are split and merged.

* `KBucket.mem_onTimeout`: what a timeout leaves of an entry; `Quiet.run`: how many of them the
  entry has after a run.
* `DHT.run_silent`: the entry of a silent node is not given to others after three timeouts, and goes
  with the first that comes after five others, when the node has not been seen for
  `KBUCKET_OLD_AND_STALE_TIME`.
-/

namespace Boson

/-! ## A timeout -/

/-- After a timeout, the entry has one more, and is not one that needs a replacement. -/
theorem KBucket.mem_onTimeout {b : KBucket} (hids : b.ids.Nodup) {now : UInt64} {id : Id}
    {x : KBucketEntry} (hx : x ∈ (b.onTimeout now id).entries) (hid : x.nodeId = id) :
    ∃ y ∈ b.entries, x = y.signalRequestTimeout ∧ x.needsReplacement now = false := by
  unfold KBucket.onTimeout at hx
  cases hidx : b.entries.findIdx? (·.nodeId == id) with
  | none =>
    rw [hidx] at hx
    have hne := List.findIdx?_eq_none_iff.mp hidx x hx
    simp [hid] at hne
  | some i =>
    obtain ⟨hi, hmatch, -⟩ := List.findIdx?_eq_some_iff_getElem.mp hidx
    have hget : (b.entries.modify i (·.signalRequestTimeout))[i]? =
        some b.entries[i].signalRequestTimeout := by
      rw [List.getElem?_modify_eq, List.getElem?_eq_getElem hi]
      rfl
    simp only [hidx, hget] at hx
    -- it is the only entry with the id
    have hsame : x ∈ b.entries.modify i (·.signalRequestTimeout) →
        x = b.entries[i].signalRequestTimeout := by
      intro hx
      obtain ⟨j, hj, rfl⟩ := List.getElem_of_mem hx
      rw [List.length_modify] at hj
      rw [List.getElem_modify] at hid ⊢
      split_ifs with hij
      · simp only [hij]
      · rw [if_neg hij] at hid
        have hj' : j < b.ids.length := by simpa [KBucket.ids] using hj
        have hi' : i < b.ids.length := by simpa [KBucket.ids] using hi
        have hkeys : b.ids[j] = b.ids[i] := by
          simp only [KBucket.ids, List.getElem_map]
          rw [hid]
          exact (by simpa using hmatch : b.entries[i].nodeId = id).symm
        exact absurd (hids.getElem_inj_iff.mp hkeys).symm hij
    unfold KBucket.removeIfBad at hx
    split_ifs at hx with hbad
    · have hfilter : x ∈ (b.entries.modify i (·.signalRequestTimeout)).filter
          (· != b.entries[i].signalRequestTimeout) := by
        simpa [KBucket.update] using hx
      obtain ⟨hmem, hne⟩ := List.mem_filter.mp hfilter
      rw [hsame hmem] at hne
      simp at hne
    · have heq := hsame hx
      refine ⟨_, List.getElem_mem hi, heq, ?_⟩
      rw [heq]
      by_contra hneeds
      rw [Bool.not_eq_false] at hneeds
      refine hbad ?_
      rw [hneeds, Bool.or_true, Bool.true_and]
      rw [heq] at hx
      exact List.any_eq_true.mpr ⟨_, hx, by simp⟩

namespace DHT

variable {self : DHT} {u : Id} {seen now : UInt64} {n : Nat} {e : Event}

/-- The event is a message of the node, or puts an entry for it into the table. -/
def Event.Concerns (u : Id) : Event → Prop
  | .received _ msg _ => msg.id = u
  | .put _ entry => entry.nodeId = u
  | .operate _ _ => False

/-- The event is a timeout of a call to the node. -/
def Event.isTimeout (u : Id) : Event → Bool
  | .operate _ (.onTimeout id) => id = u
  | _ => false

/-- The entry of the node: not seen since `seen`, and at least `n` timeouts. -/
def Silent (u : Id) (seen : UInt64) (n : Nat) (e : KBucketEntry) : Prop :=
  e.nodeId = u → e.lastSeen ≤ seen ∧ (n ≠ 0 → (n : Int) ≤ e.failedRequests)

theorem silent_closed (u : Id) (seen : UInt64) (n : Nat) : KBucketEntry.Closed (Silent u seen n)
    (Silent u seen n) where
  fit h := h
  admitted h _ := h
  merge {x e} hx he hid := by
    rw [KBucketEntry.merge_nodeId] at hid
    obtain ⟨hseen, hfailed⟩ := hx hid
    unfold KBucketEntry.merge
    by_cases heq : x.equals e.toNodeInfo = true
    · have hsame : x.nodeId = e.nodeId := by
        simp only [NodeInfo.equals, Bool.and_eq_true, beq_iff_eq] at heq
        exact heq.1
      obtain ⟨hseen', hfailed'⟩ := he (hsame ▸ hid)
      rw [if_pos heq]
      refine ⟨?_, fun hn => ?_⟩
      · show (if x.lastSeen ≤ e.lastSeen then e.lastSeen else x.lastSeen) ≤ seen
        split_ifs
        · exact hseen'
        · exact hseen
      · dsimp only
        split_ifs
        · exact le_min (hfailed hn) (hfailed' hn)
        · exact hfailed hn
    · rw [if_neg heq]
      exact ⟨hseen, hfailed⟩
  timeout {x} hx hid := by
    obtain ⟨hseen, hfailed⟩ := hx hid
    refine ⟨hseen, fun hn => (hfailed hn).trans ?_⟩
    unfold KBucketEntry.signalRequestTimeout
    dsimp only
    split_ifs <;> omega
  request hx _ hid := hx hid

/-- What the table has of the node. -/
def Quiet (self : DHT) (u : Id) (seen : UInt64) (n : Nat) : Prop :=
  ∀ e ∈ self.routingTable.allEntries, Silent u seen n e

/-- What the event puts into the table is fit. -/
def Event.Fits (Fit : KBucketEntry → Prop) : Event → Prop
  | .received now msg call => Fit (senderEntry now msg call)
  | .put _ entry => Fit entry
  | .operate _ _ => True

theorem each_step {Q : KBucket → Prop} {Fit : KBucketEntry → Prop} (s : RoutingTable.Stable Q Fit)
    (h : self.routingTable.Each Q) (he : e.Fits Fit) : (self.step e).routingTable.Each Q := by
  cases e with
  | received now msg call =>
    rw [DHT.step]
    obtain ⟨-, heq⟩ | ⟨-, known, -, heq⟩ | ⟨-, -, dht, heq, hdht⟩ := self.receive_cases now msg call
    · rw [heq]
      exact h
    · rw [heq]
      exact each_operate s h (.remove known)
    · rw [heq]
      refine each_put s ?_ he
      obtain rfl | ⟨-, rfl⟩ := hdht
      · exact h
      · have hknown : (self.setKnown msg.origin msg.id).routingTable.Each Q := h
        exact each_operate s hknown (.onSend msg.id)
  | put now entry => exact each_put s h he
  | operate now op => exact each_operate s h op

/-- What does not concern the node puts in entries of other nodes only. -/
theorem Event.fits_of_not_concerns (he : ¬ e.Concerns u) {Fit : KBucketEntry → Prop}
    (hfit : ∀ entry, entry.nodeId ≠ u → Fit entry) : e.Fits Fit := by
  cases e with
  | received now msg call =>
    refine hfit _ ?_
    rw [senderEntry_nodeId]
    exact he
  | put now entry => exact hfit entry he
  | operate now op => trivial

/-- What does not concern the node leaves its entry quiet. -/
theorem Quiet.step (h : self.Quiet u seen n) (he : ¬ e.Concerns u) :
    (self.step e).Quiet u seen n := by
  have hfits : e.Fits (Silent u seen n) := Event.fits_of_not_concerns he fun _ hentry hid =>
      absurd hid hentry
  exact RoutingTable.each_every_iff.mp
    (each_step (silent_closed u seen n).stable (RoutingTable.each_every_iff.mpr h) hfits)

/-- A node that is not in the table gets into it by what concerns it only. -/
theorem gone_step (h : self.routingTable.All fun i _ => i ≠ u) (he : ¬ e.Concerns u) :
    (self.step e).routingTable.All fun i _ => i ≠ u :=
  each_step RoutingTable.all_stable h (Event.fits_of_not_concerns he fun _ hentry _ => hentry)

theorem put_running (self : DHT) (now : UInt64) (entry : KBucketEntry) :
    (self.put now entry).running = self.running := by
  unfold DHT.put
  split <;> rfl

theorem operate_running (self : DHT) (now : UInt64) (op : TableOp) :
    (self.operate now op).running = self.running := by
  cases op with
  | onSend id =>
    unfold DHT.operate DHT.onSend
    split_ifs <;> rfl
  | onTimeout id =>
    unfold DHT.operate DHT.onTimeout
    split_ifs <;> rfl
  | remove id => rfl
  | maintenance bootstrapIds => rfl

theorem step_running (self : DHT) (e : Event) : (self.step e).running = self.running := by
  cases e with
  | received now msg call =>
    rw [DHT.step]
    obtain ⟨-, heq⟩ | ⟨-, known, -, heq⟩ | ⟨-, -, dht, heq, hdht⟩ := self.receive_cases now msg call
    · rw [heq]
    · rw [heq]
      exact self.operate_running now (.remove known)
    · rw [heq]
      refine (put_running _ _ _).trans ?_
      obtain rfl | ⟨-, rfl⟩ := hdht
      · rfl
      · exact (self.setKnown msg.origin msg.id).operate_running now (.onSend msg.id)
  | put now entry => exact self.put_running now entry
  | operate now op => exact self.operate_running now op

/-- A timeout of a call to the node is counted, and its entry does not need a replacement then. -/
theorem Quiet.timeout (h : self.Quiet u seen n) (hrunning : self.running = true) (now : UInt64) :
    ∀ e ∈ (self.step (.operate now (.onTimeout u))).routingTable.allEntries,
      Silent u seen (n + 1) e ∧ (e.nodeId = u → e.needsReplacement now = false) := by
  have htable : (self.step (.operate now (.onTimeout u))).routingTable =
      self.routingTable.onTimeout now u := by
    rw [DHT.step, DHT.operate, DHT.onTimeout, if_pos hrunning]
  rw [htable]
  intro e he
  by_cases hid : e.nodeId = u
  · have hmem :=
      RoutingTable.mem_modifyBucket self.table_ok (RoutingTable.onTimeout_inv self.table_ok)
      (KBucket.onTimeout_keeps _ now u fun _ => False).pfx he hid
    have hbucket := self.table_ok.getBucket_mem u
    obtain ⟨y, hy, rfl, hneeds⟩ := KBucket.mem_onTimeout (self.table_ok.ok _ hbucket).nodup hmem hid
    refine ⟨fun _ => ?_, fun _ => hneeds⟩
    obtain ⟨hseen, hfailed⟩ := h y (List.mem_flatMap.mpr ⟨_, hbucket, hy⟩) hid
    refine ⟨hseen, fun _ => ?_⟩
    unfold KBucketEntry.signalRequestTimeout
    dsimp only
    by_cases hn : n = 0
    · split_ifs <;> omega
    · have hcount := hfailed hn
      split_ifs <;> omega
  · exact ⟨fun hid' => absurd hid' hid, fun hid' => absurd hid' hid⟩

/-! ## Runs -/

theorem run_running (self : DHT) (events : List Event) : (self.run events).running =
    self.running := by
  induction events generalizing self with
  | nil => rfl
  | cons e events ih => exact (ih (self.step e)).trans (self.step_running e)

theorem Quiet.run (h : self.Quiet u seen n) (hrunning : self.running = true) {events : List Event}
    (hsilent : ∀ e ∈ events, ¬ e.Concerns u) :
    (self.run events).Quiet u seen (n + events.countP (·.isTimeout u)) := by
  induction events generalizing self n with
  | nil => exact h
  | cons e events ih =>
    obtain ⟨he, hevents⟩ := List.forall_mem_cons.mp hsilent
    have hrunning' : (self.step e).running = true := (self.step_running e).trans hrunning
    by_cases htimeout : e.isTimeout u = true
    · obtain ⟨now, rfl⟩ : ∃ now, e = .operate now (.onTimeout u) := by
        unfold Event.isTimeout at htimeout
        split at htimeout
        · next now id => exact ⟨now, by rw [of_decide_eq_true htimeout]⟩
        · cases htimeout
      rw [List.countP_cons_of_pos htimeout, Nat.add_comm _ 1, ← Nat.add_assoc]
      exact ih (fun x hx => (h.timeout hrunning now x hx).1) hrunning' hevents
    · rw [List.countP_cons_of_neg htimeout]
      exact ih (h.step he) hrunning' hevents

theorem gone_run (h : self.routingTable.All fun i _ => i ≠ u) {events : List Event}
    (hsilent : ∀ e ∈ events, ¬ e.Concerns u) :
    (self.run events).routingTable.All fun i _ => i ≠ u := by
  induction events generalizing self with
  | nil => exact h
  | cons e events ih =>
    obtain ⟨he, hevents⟩ := List.forall_mem_cons.mp hsilent
    exact ih (gone_step h he) hevents

end DHT

/-! ## What is given to others -/

namespace KClosestNodes

variable {kn : KClosestNodes} {dht : DHTView} {r : KBucketEntry} {now : UInt64} {includeSelf : Bool}

theorem insertEntries_filter (h : ∀ r ∈ kn.entries, kn.filter r = true) (bucket : KBucket) :
    ∀ r ∈ (kn.insertEntries bucket).entries, kn.filter r = true := by
  intro r hr
  obtain hr | hr := List.mem_append.mp hr
  · exact h r hr
  · exact (List.mem_filter.mp hr).2

theorem fillLoop_filter (h : ∀ r ∈ kn.entries, kn.filter r = true) (buckets : List KBucket)
    (low high : Nat) :
    ∀ r ∈ (kn.fillLoop buckets low high).entries, kn.filter r = true := by
  fun_induction fillLoop buckets kn low high with
  | case1 kn low high hlen hlow lb hhigh hb dir hdir ih => exact ih (insertEntries_filter h lb)
  | case2 kn low high hlen hlow lb hhigh hb dir hdir hdir' ih =>
    exact ih (insertEntries_filter h hb)
  | case3 kn low high hlen hlow lb hhigh hb dir hdir hdir' ih =>
    have hlow : ∀ r ∈ (kn.insertEntries lb).entries, (kn.insertEntries lb).filter r = true :=
      insertEntries_filter h lb
    exact ih (insertEntries_filter hlow hb)
  | case4 kn low high hlen hlow lb hhigh ih => exact ih (insertEntries_filter h lb)
  | case5 kn low high hlen hlow hhigh ih => exact ih (insertEntries_filter h _)
  | case6 => exact h
  | case7 => exact h

/-- What `fill` finds in the table passes the filter. -/
theorem eligible_of_mem_fill (hT : RoutingTable.Inv dht.routingTable) (hnil : kn.entries = [])
    (hr : r ∈ (kn.fill dht now includeSelf).entries) :
    r ∈ eligible dht.routingTable kn.filter ∨ r.toNodeInfo ∈ usableBootstrapNodes dht ∨
      r.nodeId = dht.routingTable.localId := by
  obtain ⟨i, hi, -, hfill⟩ := fill_eq kn hT now includeSelf
  rw [hfill] at hr
  have hstart : ∀ r ∈ kn.entries, kn.filter r = true := by simp [hnil]
  obtain hr | hr | hr := mem_addSelf (shave_subset _ hr)
  · refine .inl (List.mem_filter.mpr ⟨?_, ?_⟩)
    · obtain hr | ⟨b, hb, hr⟩ := (fillLoop_entries _ le_rfl hi).2 r hr
      · rw [insertEntries, hnil, List.nil_append] at hr
        exact List.mem_flatMap.mpr ⟨_, List.getElem_mem hi, List.mem_of_mem_filter hr⟩
      · exact List.mem_flatMap.mpr ⟨b, hb, hr⟩
    · exact fillLoop_filter (insertEntries_filter hstart _) _ _ _ r hr
  · exact .inr (.inl hr)
  · exact .inr (.inr hr.1)

end KClosestNodes

theorem KBucketEntry.oldAndStale_of_lt {e : KBucketEntry} {now : UInt64}
    (hfailed : 2 < e.failedRequests)
    (hseen : e.lastSeen.toNat + KBUCKET_OLD_AND_STALE_TIME.toNat < now.toNat) :
    e.oldAndStale now = true := by
  have hle : e.lastSeen ≤ now := UInt64.le_iff_toNat_le.mpr (by omega)
  rw [KBucketEntry.oldAndStale, Bool.and_eq_true, decide_eq_true_iff, decide_eq_true_iff]
  refine ⟨hfailed, ?_⟩
  rw [gt_iff_lt, UInt64.lt_iff_toNat_lt, UInt64.toNat_sub_of_le _ _ hle]
  omega

namespace DHT

open KClosestNodes (usableBootstrapNodes fill)

variable {self : DHT} {u : Id} {seen now : UInt64} {n : Nat}

/-- A timeout after five others, long enough after the node was last seen, takes it out of the
table. -/
theorem Quiet.gone (h : self.Quiet u seen n) (hrunning : self.running = true) (hn : 5 ≤ n)
    (hnow : seen.toNat + KBUCKET_OLD_AND_STALE_TIME.toNat < now.toNat) :
    (self.step (.operate now (.onTimeout u))).routingTable.All fun i _ => i ≠ u := by
  rw [RoutingTable.all_iff]
  intro e he hid
  obtain ⟨hsilent, hkept⟩ := h.timeout hrunning now e he
  obtain ⟨hseen, hfailed⟩ := hsilent hid
  have hcount : (n + 1 : Int) ≤ e.failedRequests := by exact_mod_cast hfailed (by omega)
  have hstale : e.oldAndStale now = true := by
    refine KBucketEntry.oldAndStale_of_lt (by omega) ?_
    have hle := UInt64.le_iff_toNat_le.mp hseen
    omega
  have hmax : e.failedRequests > KBUCKET_MAX_TIMEOUTS := by
    rw [KBUCKET_MAX_TIMEOUTS]
    omega
  have hneeds := hkept hid
  rw [KBucketEntry.needsReplacement, hstale, decide_eq_true hmax, Bool.true_and,
    Bool.or_true] at hneeds
  cases hneeds

/-- In every run of a running DHT in which nothing is heard of a node and nobody puts it into the
table: after three timeouts of calls to it, it is not among the nodes that are given to others,
unless it is a bootstrap node or the node itself; with a timeout that comes after five others and
long enough after it was last seen, it is out of the table for good. -/
theorem run_silent (d : DHT) (hrunning : d.running = true) (u : Id) (seen : UInt64)
    (hseen : ∀ e ∈ d.routingTable.allEntries, e.nodeId = u → e.lastSeen ≤ seen)
    (events : List Event) (hsilent : ∀ e ∈ events, ¬ e.Concerns u) :
    (3 ≤ events.countP (·.isTimeout u) → ∀ (view : DHTView),
      view.routingTable = (d.run events).routingTable →
      ∀ (target : Id) (maxEntries : Nat) (now : UInt64) (includeSelf : Bool),
        ∀ r ∈ (fill { target := target, maxEntries := maxEntries } view now includeSelf).entries,
          r.nodeId = u → r.toNodeInfo ∈ usableBootstrapNodes view ∨ u = view.routingTable.localId) ∧
    ∀ pre now post, events = pre ++ .operate now (.onTimeout u) :: post →
      5 ≤ pre.countP (·.isTimeout u) →
      seen.toNat + KBUCKET_OLD_AND_STALE_TIME.toNat < now.toNat →
        (d.run events).routingTable.getEntry u = none := by
  have hquiet : d.Quiet u seen 0 := fun e he hid => ⟨hseen e he hid, fun h => absurd rfl h⟩
  refine ⟨fun hcount view hview target maxEntries now includeSelf r hr hid => ?_, ?_⟩
  · have hT : RoutingTable.Inv view.routingTable := hview ▸ (d.run events).table_ok
    obtain hr | hr | hr := KClosestNodes.eligible_of_mem_fill hT rfl hr
    · -- the entry in the table has at least as many timeouts
      obtain ⟨hmem, heligible⟩ := List.mem_filter.mp hr
      obtain ⟨-, hfailed⟩ := hquiet.run hrunning hsilent r (hview ▸ hmem) hid
      have hmany := hfailed (by omega)
      simp only [KBucketEntry.isEligibleForNodesList, Bool.and_eq_true,
        decide_eq_true_eq] at heligible
      omega
    · exact .inl hr
    · exact .inr (hid.symm.trans hr)
  · rintro pre now post rfl hcount hnow
    obtain ⟨hpre, hpost⟩ := List.forall_mem_append.mp hsilent
    have hafter : (d.run pre).Quiet u seen (0 + pre.countP (·.isTimeout u)) :=
      hquiet.run hrunning hpre
    have hgone := hafter.gone ((d.run_running pre).trans hrunning) (by omega) hnow
    have hrun := gone_run hgone (List.forall_mem_cons.mp hpost).2
    refine RoutingTable.getEntry_eq_none (d.run _).table_ok fun x hx => ?_
    rw [run, List.foldl_append, List.foldl_cons] at hx
    exact RoutingTable.all_iff.mp hrun x hx

/-- Six timeouts, of which the last comes more than `KBUCKET_OLD_AND_STALE_TIME` after the first
ones. -/
def sixTimeouts : List Event :=
  List.replicate 5 (.operate 0 (.onTimeout Id.MAX_ID)) ++ [.operate 900001 (.onTimeout Id.MAX_ID)]

/-- The node `MAX_ID` is in the table, and is out of it after them. -/
theorem run_silent_patient : ((Node.patientHost 0).routingTable.getEntry Id.MAX_ID).isSome = true ∧
    (∀ view : DHTView, view.routingTable = ((Node.patientHost 0).run sixTimeouts).routingTable →
      ∀ (target : Id) (maxEntries : Nat) (now : UInt64) (includeSelf : Bool),
        ∀ r ∈ (fill { target := target, maxEntries := maxEntries } view now includeSelf).entries,
          r.nodeId = Id.MAX_ID → r.toNodeInfo ∈ usableBootstrapNodes view ∨
            Id.MAX_ID = view.routingTable.localId) ∧
    ((Node.patientHost 0).run sixTimeouts).routingTable.getEntry Id.MAX_ID = none := by
  have hsilent : ∀ e ∈ sixTimeouts, ¬ e.Concerns Id.MAX_ID := by
    intro e he
    obtain he | he := List.mem_append.mp he
    · rw [List.eq_of_mem_replicate he]
      exact id
    · rw [List.mem_singleton.mp he]
      exact id
  obtain ⟨hgiven, hout⟩ :=
    run_silent (Node.patientHost 0) (by decide +kernel) Id.MAX_ID 0 (by decide +kernel)
    sixTimeouts hsilent
  exact ⟨by decide +kernel, hgiven (by decide +kernel),
    hout _ 900001 [] rfl (by decide +kernel) (by decide)⟩

end DHT

end Boson
