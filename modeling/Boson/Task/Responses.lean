import Boson.Lib.Runs
import Boson.Task.Progress

/-!
# What a lookup takes from a response

A step changes the closest set and the results of a lookup only where a response is delivered to one
of its calls (`step_closestSet`, `step_results`).

* `run_onlyGenuine`: the closest set has only nodes that answered what they were asked. Value and
  peer lookups see to that; a node lookup takes every response.
* `results_onTarget_iff`: values that are handed out are valid and have the id that was looked for.
  So have the peers, except that nobody compares their id with the target.
-/

namespace Boson

/-- The method of the requests of a lookup. -/
def LookupKind.method : LookupKind → Method
  | node => .findNode
  | value => .findValue
  | peer => .findPeer

namespace LookupTask

variable {t t' t'' : LookupTask} {now : UInt64} {id : Id} {r : Responded}

/-- The response that an event delivers to a call of the task. -/
def delivered (self : LookupTask) : LookupEvent → Option (LookupCall × Responded)
  | .call key (.responded r) =>
    if self.rx && !self.isFinished then (self.inFlight.find? (·.key = key)).map (·, r) else none
  | _ => none

theorem delivered_eq {e : LookupEvent} {call : LookupCall} (h : t.delivered e = some (call, r)) :
    ∃ key, e = .call key (.responded r) := by
  unfold delivered at h
  split at h
  · split_ifs at h
    obtain ⟨c, -, heq⟩ := Option.map_eq_some_iff.mp h
    cases heq
    exact ⟨_, rfl⟩
  · cases h

/-! ## What the other parts of a step leave alone -/

/-- Neither the closest set nor the results change. -/
structure Quiet (t t' : LookupTask) : Prop where
  lookup : t'.toLookup = t.toLookup
  closestSet : t'.closestSet = t.closestSet
  results : t'.results = t.results

theorem Quiet.refl (t : LookupTask) : Quiet t t := ⟨rfl, rfl, rfl⟩

theorem Quiet.trans (h : Quiet t t') (h' : Quiet t' t'') : Quiet t t'' :=
  ⟨h'.lookup.trans h.lookup, h'.closestSet.trans h.closestSet, h'.results.trans h.results⟩

theorem quiet_terminate (t : LookupTask) (st : TaskState) : Quiet t (t.terminate st) := by
  unfold terminate
  split_ifs
  · exact .refl t
  · exact ⟨rfl, rfl, rfl⟩

theorem quiet_finishIfDone (t : LookupTask) : Quiet t t.finishIfDone := by
  unfold finishIfDone
  split_ifs
  · exact quiet_terminate t _
  · exact .refl t

theorem quiet_addCandidates (t : LookupTask) (nodes : List NodeRef) :
    Quiet t (t.addCandidates nodes) := by
  obtain ⟨cc, heq, -⟩ := addCandidates_eq t nodes
  rw [heq]
  exact ⟨rfl, rfl, rfl⟩

theorem quiet_addNodes (t : LookupTask) (nodes : List NodeInfo) : Quiet t (t.addNodes nodes) := by
  unfold addNodes
  split_ifs
  · exact quiet_addCandidates t _
  · exact .refl t

theorem quiet_update (t : LookupTask) (now : UInt64) : Quiet t (t.update now) := by
  fun_induction update t now with
  | case1 t => exact .refl t
  | case2 t hlt candidate hnext ih =>
    have hsend : Quiet t (t.sendCall now candidate) := ⟨rfl, rfl, rfl⟩
    exact hsend.trans ih
  | case3 t => exact .refl t

theorem quiet_serializedUpdate (t : LookupTask) (now : UInt64) :
    Quiet t (t.serializedUpdate now) := by
  have hchecks : Quiet t (t.afterChecks now) := by
    unfold afterChecks
    dsimp only
    split_ifs
    · exact ((quiet_finishIfDone t).trans (quiet_update _ now)).trans (quiet_finishIfDone _)
    · exact quiet_finishIfDone t
  rw [serializedUpdate_eq]
  split_ifs
  · exact hchecks.trans ⟨rfl, rfl, rfl⟩
  · exact hchecks

theorem quiet_callTimeout (t : LookupTask) (id : Id) : Quiet t (t.callTimeout id) := by
  unfold callTimeout
  split
  · exact .refl t
  · split_ifs <;> exact ⟨rfl, rfl, rfl⟩

/-- An event that delivers no response changes neither. -/
theorem quiet_handle {e : LookupEvent} (h : t.delivered e = none) : Quiet t (t.handle now e).1 := by
  cases e with
  | inject nodes =>
    unfold handle
    dsimp only
    split_ifs
    · exact quiet_addCandidates t nodes
    · exact .refl t
  | start nodes =>
    unfold handle
    dsimp only
    split_ifs
    · have hstart : Quiet t { t with state := .running, isRunning := true } := ⟨rfl, rfl, rfl⟩
      exact hstart.trans (quiet_addCandidates _ nodes)
    · exact .refl t
  | cancel => exact quiet_terminate t _
  | call key e =>
    unfold handle
    dsimp only
    cases hfind : t.inFlight.find? (·.key = key) with
    | none => exact .refl t
    | some call =>
      dsimp only
      split_ifs with hrx
      · suffices hq : Quiet t (t.onStateChange now call e).1 from hq.trans ⟨rfl, rfl, rfl⟩
        have hended : Quiet t { t with inFlight := t.inFlight.erase call } := ⟨rfl, rfl, rfl⟩
        unfold onStateChange
        cases e with
        | responded r =>
          have hf : t.isFinished = true := by
            by_contra hf
            simp [delivered, hrx, hf, hfind] at h
          dsimp only
          rw [if_pos (show LookupTask.isFinished { t with inFlight := t.inFlight.erase call } =
            true from hf)]
          exact hended
        | err =>
          dsimp only
          split_ifs <;> exact ⟨rfl, rfl, rfl⟩
        | timeout =>
          dsimp only
          split_ifs
          · exact hended
          · exact hended.trans (quiet_callTimeout _ _)
        | stalled => exact .refl t
      · exact .refl t

theorem quiet_step {e : UInt64 × LookupEvent} : Quiet (t.handle e.1 e.2).1 (t.step e) := by
  unfold step
  dsimp only
  split_ifs
  · exact quiet_serializedUpdate _ e.1
  · exact .refl _

/-! ## A response that is delivered -/

/-- The lookup puts the node that answered into its closest set. -/
def takes (self : LookupTask) (id : Id) (r : Responded) : Bool :=
  self.kind = .node || r.fits id self.kind.method

/-- The nodes that a `NodeLookup` hands to its result handler. -/
def handedNodes (self : LookupTask) : Content → List LookupResult
  | .findNodeResponse l => ((l.getNodes self.network).filter (·.nodeId = self.target)).map .node
  | _ => []

/-- The value that a `ValueLookup` hands to its result handler. -/
def handedValue (self : LookupTask) : Content → List LookupResult
  | .findValueResponse _ v =>
    match v.getValue with
    | .ok value =>
      if v.hasValue && value.getId self.crypto = self.target && value.isValid self.crypto &&
          !(self.expectedSequence ≥ 0 && value.sequenceNumber < self.expectedSequence) then
        [.value value]
      else []
    | .error _ => []
  | _ => []

/-- The peers that a `PeerLookup` hands to its result handler. -/
def handedPeers (self : LookupTask) : Content → List LookupResult
  | .findPeerResponse _ peers =>
    if peers ≠ [] ∧ peers.all (·.isValid self.crypto) then [.peers peers] else []
  | _ => []

/-- What the lookup hands to its result handler. -/
def handed (self : LookupTask) (id : Id) (r : Responded) : List LookupResult :=
  if !r.fits id self.kind.method then []
  else match self.kind with
    | .node => self.handedNodes r.response.content
    | .value => self.handedValue r.response.content
    | .peer => self.handedPeers r.response.content

/-- The closest set after `addResponder`. -/
def closestAfter (self : LookupTask) (now : UInt64) (id : Id) (token : Int) : ClosestSet :=
  match self.closestCandidates.get id with
  | none => self.closestSet
  | some candidate => self.closestSet.add ((candidate.setReplied now).setToken token)

/-- What a response does: the closest set changes, and results are handed out. -/
structure Takes (t t' : LookupTask) (closestSet : ClosestSet)
    (results : List LookupResult) : Prop where
  lookup : t'.toLookup = t.toLookup
  closestSet_eq : t'.closestSet = closestSet
  results_eq : t'.results = t.results ++ results

theorem takes_addResponder (t : LookupTask) (now : UInt64) (id : Id) (token : Int) :
    Takes t (t.addResponder now id token) (t.closestAfter now id token) [] := by
  unfold addResponder closestAfter
  cases t.closestCandidates.get id <;> exact ⟨rfl, rfl, (List.append_nil _).symm⟩

variable {cs : ClosestSet} {rs : List LookupResult}

theorem Takes.quiet (h : Takes t t' cs rs) (hq : Quiet t' t'') : Takes t t'' cs rs :=
  ⟨hq.lookup.trans h.lookup, hq.closestSet.trans h.closestSet_eq, hq.results.trans h.results_eq⟩

theorem Takes.handleResult (h : Takes t t' cs rs) (r : Responded) (x : LookupResult) :
    Takes t (t'.handleResult r x) cs (rs ++ [x]) := by
  have hx : Takes t { t' with results := t'.results ++ [x] } cs (rs ++ [x]) :=
    ⟨h.lookup, h.closestSet_eq, by rw [h.results_eq, List.append_assoc]⟩
  unfold LookupTask.handleResult
  dsimp only
  split_ifs
  · exact hx.quiet (quiet_terminate _ _)
  · exact hx

theorem Takes.foldl_handleResult (h : Takes t t' cs rs) (r : Responded) (nodes : List NodeInfo) :
    Takes t (nodes.foldl (fun t n => t.handleResult r (.node n)) t') cs
      (rs ++ nodes.map .node) := by
  induction nodes generalizing t' rs with
  | nil => simpa using h
  | cons n nodes ih => simpa using ih (h.handleResult r (.node n))

theorem handed_of_not_fits (h : r.fits id t.kind.method = false) : t.handed id r = [] := by
  rw [handed, h]
  rfl

theorem handed_of_fits (h : r.fits id t.kind.method = true) :
    t.handed id r = match t.kind with
      | .node => t.handedNodes r.response.content
      | .value => t.handedValue r.response.content
      | .peer => t.handedPeers r.response.content := by
  rw [handed, h]
  rfl

theorem nodeResponsed_takes (hkind : t.kind = .node) :
    Takes t (t.nodeResponsed now id r) (t.closestAfter now id r.getToken) (t.handed id r) := by
  have hadd := takes_addResponder t now id r.getToken
  unfold nodeResponsed
  dsimp only
  cases hfits : r.fits id .findNode with
  | false =>
    rw [handed_of_not_fits (by rwa [hkind])]
    exact hadd
  | true =>
    rw [handed_of_fits (by rwa [hkind]), hkind]
    dsimp only [handedNodes]
    have hl := hadd.lookup
    cases r.response.content with
    | findNodeResponse l =>
      simp only [congrArg Lookup.network hl, congrArg Lookup.target hl]
      exact (hadd.quiet (quiet_addNodes _ _)).foldl_handleResult r _
    | _ => exact hadd

theorem valueResponsed_takes (hkind : t.kind = .value) (hfits : r.fits id .findValue = true) :
    Takes t (t.valueResponsed now id r).1 (t.closestAfter now id r.getToken) (t.handed id r) := by
  have hadd := takes_addResponder t now id r.getToken
  have hl := hadd.lookup
  unfold valueResponsed
  rw [handed_of_fits (by rwa [hkind]), hkind, hfits]
  dsimp only [handedValue]
  cases r.response.content with
  | findValueResponse l v =>
    simp only [Bool.not_true, Bool.false_eq_true, if_false]
    cases hv : v.getValue with
    | error e =>
      dsimp only
      split_ifs
      · exact hadd
      · exact hadd.quiet (quiet_addNodes _ _)
    | ok value =>
      simp only [congrArg Lookup.crypto hl, congrArg Lookup.target hl,
        congrArg Lookup.expectedSequence hl]
      cases hhas : v.hasValue with
      | false => exact hadd.quiet (quiet_addNodes _ _)
      | true =>
        by_cases hid : value.getId t.crypto = t.target
        · cases hvalid : value.isValid t.crypto with
          | false => simpa [hid] using hadd
          | true =>
            cases hseq : (decide (t.expectedSequence ≥ 0) &&
              decide (value.sequenceNumber < t.expectedSequence)) with
            | true => simpa [hid] using hadd
            | false => simpa [hid] using hadd.handleResult r (.value value)
        · simpa [hid] using hadd
  | _ => exact hadd

theorem peerResponsed_takes (hkind : t.kind = .peer) (hfits : r.fits id .findPeer = true) :
    Takes t (t.peerResponsed now id r) (t.closestAfter now id r.getToken) (t.handed id r) := by
  have hadd := takes_addResponder t now id r.getToken
  have hl := hadd.lookup
  unfold peerResponsed
  rw [handed_of_fits (by rwa [hkind]), hkind, hfits]
  dsimp only [handedPeers]
  cases r.response.content with
  | findPeerResponse l peers =>
    simp only [Bool.not_true, Bool.false_eq_true, if_false, congrArg Lookup.crypto hl]
    by_cases hne : peers ≠ []
    · rw [if_pos hne]
      by_cases hvalid : (peers.all (·.isValid t.crypto)) = true
      · rw [if_pos hvalid, if_pos ⟨hne, hvalid⟩]
        exact hadd.handleResult r (.peers peers)
      · rw [if_neg hvalid, if_neg fun h => hvalid h.2]
        exact hadd
    · rw [if_neg hne, if_neg fun h => hne h.1]
      exact hadd.quiet (quiet_addNodes _ _)
  | _ => exact hadd

theorem callResponsed_takes (h : t.takes id r = true) :
    Takes t (t.callResponsed now id r).1 (t.closestAfter now id r.getToken) (t.handed id r) := by
  unfold callResponsed
  unfold takes at h
  cases hkind : t.kind with
  | node => exact nodeResponsed_takes hkind
  | value =>
    rw [hkind] at h
    exact valueResponsed_takes hkind (by simpa [LookupKind.method] using h)
  | peer =>
    rw [hkind] at h
    exact peerResponsed_takes hkind (by simpa [LookupKind.method] using h)

/-- What a response does to the closest set and to the results. -/
theorem callResponsed_spec (t : LookupTask) (now : UInt64) (id : Id) (r : Responded) :
    Takes t (t.callResponsed now id r).1
      (if t.takes id r then t.closestAfter now id r.getToken else t.closestSet)
      (t.handed id r) := by
  cases h : t.takes id r with
  | true => exact callResponsed_takes h
  | false =>
    simp only [takes, Bool.or_eq_false_iff, decide_eq_false_iff_not] at h
    have hignores : t.Ignores id r := by
      unfold Ignores
      cases hkind : t.kind with
      | node => exact absurd hkind h.1
      | value =>
        rw [hkind] at h
        exact .inl ⟨rfl, h.2⟩
      | peer =>
        rw [hkind] at h
        exact .inr ⟨rfl, h.2⟩
    rw [callResponsed_of_ignores hignores, handed_of_not_fits h.2]
    exact ⟨rfl, rfl, (List.append_nil _).symm⟩

/-- What a step does to the closest set and to the results. -/
theorem step_spec (t : LookupTask) (e : UInt64 × LookupEvent) :
    match t.delivered e.2 with
    | some (call, r) => Takes t (t.step e)
        (if t.takes call.target r then t.closestAfter e.1 call.target r.getToken
          else t.closestSet)
        (t.handed call.target r)
    | none => Quiet t (t.step e) := by
  cases h : t.delivered e.2 with
  | none => exact (quiet_handle h).trans quiet_step
  | some cr =>
    obtain ⟨call, r⟩ := cr
    refine Takes.quiet ?_ quiet_step
    obtain ⟨now, e⟩ := e
    cases e with
    | call key e =>
      cases e with
      | responded r' =>
        simp only [delivered, Option.ite_none_right_eq_some, Option.map_eq_some_iff,
          Bool.and_eq_true, Bool.not_eq_true', Prod.mk.injEq] at h
        obtain ⟨⟨hrx, hf⟩, call', hfind, rfl, rfl⟩ := h
        have hspec :=
          callResponsed_spec { t with inFlight := t.inFlight.erase call' } now call'.target r'
        have hchange : t.onStateChange now call' (.responded r') =
            callResponsed { t with inFlight := t.inFlight.erase call' } now call'.target r' := by
          unfold onStateChange
          exact if_neg ((Bool.not_eq_true _).mpr hf)
        have hhandle : (t.handle now (.call key (.responded r'))).1 =
            { (t.onStateChange now call' (.responded r')).1 with
              rx := !(t.onStateChange now call' (.responded r')).2 } := by
          simp only [handle, hfind, hrx, if_true]
        rw [hhandle, hchange]
        exact ⟨hspec.lookup, hspec.closestSet_eq, hspec.results_eq⟩
      | _ => cases h
    | _ => cases h

/-! ## The closest set -/

/-- The event is a response of the method that was asked for, from the node that was asked. -/
def Genuine (self : LookupTask) (e : LookupEvent) : Prop :=
  ∃ call r, self.delivered e = some (call, r) ∧ r.fits call.target self.kind.method = true

instance (t : LookupTask) (e : LookupEvent) : Decidable (t.Genuine e) :=
  match h : t.delivered e with
  | some (call, r) =>
    decidable_of_iff (r.fits call.target t.kind.method = true) (by simp [Genuine, h])
  | none => .isFalse (by simp [Genuine, h])

/-- The event with another content of the memory behind its message. -/
def LookupEvent.withStray (stray : Int) : LookupEvent → LookupEvent
  | .call key (.responded r) => .call key (.responded { r with stray := stray })
  | e => e

/-- A step changes the closest set only for a genuine response, and does not read anything else as a
`LookupResponse`: it does not matter what stands in memory where that has its token. -/
structure OnlyGenuine (self : LookupTask) (e : UInt64 × LookupEvent) : Prop where
  unchanged : ¬ self.Genuine e.2 → (self.step e).closestSet = self.closestSet
  uninterpreted : ∀ stray, self.step (e.1, LookupEvent.withStray stray e.2) = self.step e

/-- The node was put into the closest set for a genuine response, with the token of that. -/
def FromGenuine (lookup : Lookup) (events : List (UInt64 × LookupEvent))
    (n : CandidateNode) : Prop :=
  ∃ pre e post call r l, events = pre ++ e :: post ∧
    ((new lookup).run pre).delivered e.2 = some (call, r) ∧
      r.fits call.target lookup.kind.method = true ∧
    r.response.lookupResponse? = some l ∧ n.nodeId = call.target ∧ n.token = l.token.toInt

/-- A node lookup that is still going on gets another response from a node that is one of its
candidates. -/
def TakesStray (self : LookupTask) (e : LookupEvent) : Prop :=
  self.kind = .node ∧ ∃ call r, self.delivered e = some (call, r) ∧
    (self.closestCandidates.get call.target).isSome = true ∧ r.fits call.target .findNode = false

theorem fits_lookupResponse {kind : LookupKind} (h : r.fits id kind.method = true) :
    ∃ l, r.response.lookupResponse? = some l ∧ r.getToken = l.token.toInt := by
  simp only [Responded.fits, Bool.and_eq_true, decide_eq_true_eq] at h
  obtain ⟨⟨-, htype⟩, hmethod⟩ := h
  unfold Responded.getToken
  unfold Message.getType at htype
  unfold Message.getMethod at hmethod
  unfold Message.lookupResponse?
  cases hc : r.response.content <;> rw [hc] at htype hmethod <;> cases kind <;>
    first
    | exact ⟨_, rfl, rfl⟩
    | (cases hmethod; done)
    | cases htype

theorem lookup_run (lookup : Lookup) (events : List (UInt64 × LookupEvent)) :
    ((new lookup).run events).toLookup = lookup := by
  induction events using List.reverseRecOn with
  | nil => rfl
  | append_singleton pre e ih =>
    have hstep := step_spec ((new lookup).run pre) e
    rw [run_append]
    cases hd : ((new lookup).run pre).delivered e.2 with
    | none =>
      rw [hd] at hstep
      exact hstep.lookup.trans ih
    | some cr =>
      rw [hd] at hstep
      exact hstep.lookup.trans ih

variable {e : UInt64 × LookupEvent}

/-- The closest set after a step. -/
theorem closestSet_step (h : t.delivered e.2 = some (call, r)) : (t.step e).closestSet =
    if t.takes call.target r then t.closestAfter e.1 call.target r.getToken else t.closestSet := by
  have hstep := step_spec t e
  rw [h] at hstep
  exact hstep.closestSet_eq

theorem closestSet_step_of_none (h : t.delivered e.2 = none) : (t.step e).closestSet =
    t.closestSet := by
  have hstep := step_spec t e
  rw [h] at hstep
  exact hstep.closestSet

/-- Only a genuine response, or one that a node lookup takes as well, changes the closest set. -/
theorem step_unchanged (hstray : ¬ t.TakesStray e.2) (hg : ¬ t.Genuine e.2) :
    (t.step e).closestSet = t.closestSet := by
  cases hd : t.delivered e.2 with
  | none => exact closestSet_step_of_none hd
  | some cr =>
    obtain ⟨call, r⟩ := cr
    have hfits : r.fits call.target t.kind.method = false := by
      rw [← Bool.not_eq_true]
      exact fun hf => hg ⟨call, r, hd, hf⟩
    rw [closestSet_step hd]
    split_ifs with htakes
    · -- a node lookup, whose candidate is gone
      have hkind : t.kind = .node := by simpa [takes, hfits] using htakes
      have hgone : t.closestCandidates.get call.target = none := by
        by_contra hne
        rw [hkind] at hfits
        exact hstray ⟨hkind, call, r, hd, Option.isSome_iff_ne_none.mpr hne, hfits⟩
      rw [closestAfter, hgone]
    · rfl

/-- A response that is ignored, or genuine, or whose node is no candidate, is not read past its
end. -/
theorem callResponsed_withStray (now : UInt64) (id : Id) (r : Responded) (stray : Int)
    (h : (t.closestCandidates.get id).isSome = true → t.kind = .node → r.fits id .findNode = true) :
    t.callResponsed now id { r with stray := stray } = t.callResponsed now id r := by
  by_cases hignores : t.Ignores id r
  · have hignores' : t.Ignores id { r with stray := stray } := hignores
    rw [callResponsed_of_ignores hignores, callResponsed_of_ignores hignores']
  · have hadd : t.addResponder now id (Responded.getToken { r with stray := stray }) =
        t.addResponder now id r.getToken := by
      unfold addResponder
      cases hget : t.closestCandidates.get id with
      | none => rfl
      | some candidate =>
        have hfits : r.fits id t.kind.method = true := by
          rw [← Bool.not_eq_false]
          intro hno
          cases hkind : t.kind with
          | node =>
            rw [hkind] at hno
            exact Bool.false_ne_true (hno.symm.trans (h (by rw [hget]; rfl) hkind))
          | value =>
            rw [hkind] at hno
            exact hignores (.inl ⟨hkind, hno⟩)
          | peer =>
            rw [hkind] at hno
            exact hignores (.inr ⟨hkind, hno⟩)
        obtain ⟨l, hl, -⟩ := fits_lookupResponse hfits
        simp only [Responded.getToken, hl]
    unfold callResponsed
    cases t.kind with
    | node =>
      dsimp only [nodeResponsed]
      rw [hadd]
      rfl
    | value =>
      dsimp only [valueResponsed]
      rw [hadd]
      rfl
    | peer =>
      dsimp only [peerResponsed]
      rw [hadd]
      rfl

theorem onStateChange_withStray {key : Nat} {call : LookupCall}
    (hfind : t.inFlight.find? (·.key = key) = some call)
    (hrx : t.rx = true) (hstray : ¬ t.TakesStray (.call key (.responded r))) (stray : Int) :
    t.onStateChange now call (.responded { r with stray := stray }) =
      t.onStateChange now call (.responded r) := by
  unfold onStateChange
  dsimp only
  split_ifs with hf
  · rfl
  · have hd : t.delivered (.call key (.responded r)) = some (call, r) := by
      have hf' : t.isFinished = false := (Bool.not_eq_true _).mp hf
      simp [delivered, hrx, hf', hfind]
    refine callResponsed_withStray now call.target r stray fun hget hkind => ?_
    rw [← Bool.not_eq_false]
    exact fun hno => hstray ⟨hkind, call, r, hd, hget, hno⟩

theorem step_uninterpreted (hstray : ¬ t.TakesStray e.2) (stray : Int) :
    t.step (e.1, LookupEvent.withStray stray e.2) = t.step e := by
  obtain ⟨now, e⟩ := e
  cases e with
  | call key e =>
    cases e with
    | responded r =>
      suffices hhandle : t.handle now (.call key (.responded { r with stray := stray })) =
          t.handle now (.call key (.responded r)) by
        simp only [LookupEvent.withStray, step, hhandle]
      simp only [handle]
      cases hfind : t.inFlight.find? (·.key = key) with
      | none => rfl
      | some call =>
        dsimp only
        split_ifs with hrx
        · rw [onStateChange_withStray hfind hrx hstray]
        · rfl
    | _ => rfl
  | _ => rfl

/-- A node that a step puts into the closest set is the one that answered, with the token of its
response. -/
theorem mem_closestSet_step {n : CandidateNode} (hstray : ¬ t.TakesStray e.2)
    (h : n ∈ (t.step e).closestSet.closest) : n ∈ t.closestSet.closest ∨
      ∃ call r l, t.delivered e.2 = some (call, r) ∧ r.fits call.target t.kind.method = true ∧
        r.response.lookupResponse? = some l ∧ n.nodeId = call.target ∧ n.token = l.token.toInt := by
  by_cases hg : t.Genuine e.2
  · obtain ⟨call, r, hd, hfits⟩ := hg
    obtain ⟨l, hl, htoken⟩ := fits_lookupResponse hfits
    rw [closestSet_step hd, takes, hfits, Bool.or_true, if_pos rfl, closestAfter] at h
    cases hget : t.closestCandidates.get call.target with
    | none =>
      rw [hget] at h
      exact .inl h
    | some candidate =>
      rw [hget] at h
      obtain rfl | hn := ClosestSet.mem_add h
      · have hid : candidate.nodeId = call.target := by simpa using List.find?_some hget
        exact .inr ⟨call, r, l, hd, hfits, hl, hid, htoken⟩
      · exact .inl hn
  · rw [step_unchanged hstray hg] at h
    exact .inl h

/-- In a run in which a node lookup gets no other responses than those it asked for, every step
changes the closest set only for a genuine response, and all its nodes stem from one. Value and peer
lookups need no such condition. -/
theorem run_onlyGenuine (lookup : Lookup) (events : List (UInt64 × LookupEvent))
    (h : Runs.Every (fun pre e => ¬ ((new lookup).run pre).TakesStray e.2) events) :
    Runs.Every (fun pre e => ((new lookup).run pre).OnlyGenuine e) events ∧
      ∀ n ∈ ((new lookup).run events).closestSet.closest, FromGenuine lookup events n := by
  refine ⟨fun pre e post heq => ?_, ?_⟩
  · exact ⟨step_unchanged (h pre e post heq), step_uninterpreted (h pre e post heq)⟩
  · induction events using List.reverseRecOn with
    | nil => simp [run, new]
    | append_singleton pre e ih =>
      obtain ⟨hpre, hlast⟩ := Runs.every_concat.mp h
      intro n hn
      rw [run_append] at hn
      obtain hn | ⟨call, r, l, hd, hfits, hl⟩ := mem_closestSet_step hlast hn
      · obtain ⟨pre', e', post, call, r, l, heq, hfrom⟩ := ih hpre n hn
        exact ⟨pre', e', post ++ [e], call, r, l, by rw [heq]; simp, hfrom⟩
      · rw [lookup_run] at hfits
        exact ⟨pre, e, [], call, r, l, rfl, hd, hfits, hl⟩

theorem run_onlyGenuine_value :
    Runs.Every (fun pre e => ((new (lookupAt .value 0x80)).run pre).OnlyGenuine e) answered ∧
      ∀ n ∈ ((new (lookupAt .value 0x80)).run answered).closestSet.closest,
        FromGenuine (lookupAt .value 0x80) answered n := by
  refine run_onlyGenuine (lookupAt .value 0x80) answered fun pre e post _ hstray => ?_
  have hkind := hstray.1
  rw [lookup_run] at hkind
  cases hkind

/-- A node lookup gets a response to a ping: the node comes into its closest set. -/
theorem not_onlyGenuine_ping :
    ¬ ((new (lookupAt .node 0x80)).run [(1, .start [.info (nodeAt 1)])]).OnlyGenuine
      (2, answer 0 1 .pingResponse) := by
  rintro ⟨hunchanged, -⟩
  have hchanged : (((new (lookupAt .node 0x80)).run [(1, .start [.info (nodeAt 1)])]).step
      (2, answer 0 1 .pingResponse)).closestSet ≠
      ((new (lookupAt .node 0x80)).run [(1, .start [.info (nodeAt 1)])]).closestSet := by
    decide +kernel
  exact hchanged (hunchanged (by decide +kernel))

/-! ## The results -/

/-- A result is authentic and what the lookup looked for. -/
def OnTarget (lookup : Lookup) : LookupResult → Prop
  | .node n => n.nodeId = lookup.target
  | .value v => v.isValid lookup.crypto = true ∧ v.getId lookup.crypto = lookup.target
  | .peers ps => ∀ p ∈ ps, p.isValid lookup.crypto = true ∧ p.publicKey = lookup.target

/-- A peer lookup accepts a response with a peer of another id: all its peers are valid. -/
def TakesOthers (self : LookupTask) (e : LookupEvent) : Prop :=
  self.kind = .peer ∧ ∃ call r l peers, self.delivered e = some (call, r) ∧
    r.response.id = call.target ∧
    r.response.content = .findPeerResponse l peers ∧ (∀ p ∈ peers, p.isValid self.crypto = true) ∧
    ∃ p ∈ peers, p.publicKey ≠ self.target

theorem fits_findPeer {l : LookupResponse} {peers : List PeerInfo}
    (hc : r.response.content = .findPeerResponse l peers) :
    r.fits id .findPeer = true ↔ r.response.id = id := by
  simp [Responded.fits, Message.getType, Message.getMethod, hc]

/-- A peer lookup hands out the peers of a response if all of them are valid. -/
theorem mem_handed_peer (hkind : t.kind = .peer) (x : LookupResult) :
    x ∈ t.handed id r ↔ ∃ l peers, r.response.id = id ∧
      r.response.content = .findPeerResponse l peers ∧
      peers ≠ [] ∧ (∀ p ∈ peers, p.isValid t.crypto = true) ∧ x = .peers peers := by
  have hmethod : t.kind.method = .findPeer := by rw [hkind]; rfl
  cases hfits : r.fits id .findPeer with
  | false =>
    rw [handed_of_not_fits (by rwa [hmethod])]
    refine iff_of_false List.not_mem_nil ?_
    rintro ⟨l, peers, hid, hc, -⟩
    rw [(fits_findPeer hc).mpr hid] at hfits
    cases hfits
  | true =>
    rw [handed_of_fits (by rwa [hmethod]), hkind]
    dsimp only [handedPeers]
    cases hc : r.response.content with
    | findPeerResponse l peers =>
      dsimp only
      have hid := (fits_findPeer hc).mp hfits
      by_cases hok : peers ≠ [] ∧ (peers.all (·.isValid t.crypto)) = true
      · rw [if_pos hok, List.mem_singleton]
        refine ⟨fun hx => ⟨l, peers, hid, rfl, hok.1, List.all_eq_true.mp hok.2, hx⟩, ?_⟩
        rintro ⟨l', peers', -, heq, -, -, rfl⟩
        cases heq
        rfl
      · rw [if_neg hok]
        refine iff_of_false List.not_mem_nil ?_
        rintro ⟨l', peers', -, heq, hne, hvalid, -⟩
        cases heq
        exact hok ⟨hne, List.all_eq_true.mpr hvalid⟩
    | _ =>
      refine iff_of_false List.not_mem_nil ?_
      rintro ⟨l, peers, -, heq, -⟩
      cases heq

/-- A value lookup without an expected sequence number hands out the value of a response if it is
valid and has the id that was looked for. -/
theorem mem_handed_value (hkind : t.kind = .value) (hseq : t.expectedSequence = -1)
    (x : LookupResult) :
    x ∈ t.handed id r ↔ ∃ l v value, r.response.id = id ∧
      r.response.content = .findValueResponse l v ∧
      v.hasValue = true ∧ v.getValue = .ok value ∧ value.getId t.crypto = t.target ∧
      value.isValid t.crypto = true ∧ x = .value value := by
  have hmethod : t.kind.method = .findValue := by rw [hkind]; rfl
  cases hfits : r.fits id .findValue with
  | false =>
    rw [handed_of_not_fits (by rwa [hmethod])]
    refine iff_of_false List.not_mem_nil ?_
    rintro ⟨l, v, value, hid, hc, -⟩
    simp [Responded.fits, Message.getType, Message.getMethod, hc, hid] at hfits
  | true =>
    rw [handed_of_fits (by rwa [hmethod]), hkind]
    dsimp only [handedValue]
    cases hc : r.response.content with
    | findValueResponse l v =>
      have hid : r.response.id = id := by
        simp only [Responded.fits, Bool.and_eq_true, decide_eq_true_eq] at hfits
        exact hfits.1.1
      dsimp only
      cases hv : v.getValue with
      | error e =>
        refine iff_of_false List.not_mem_nil ?_
        rintro ⟨l', v', value, -, heq, -, hv', -⟩
        cases heq
        rw [hv] at hv'
        cases hv'
      | ok value =>
        dsimp only
        have hany :
            (!(decide (t.expectedSequence ≥ 0) &&
            decide (value.sequenceNumber < t.expectedSequence))) =
            true := by
          rw [hseq]
          rfl
        rw [hany, Bool.and_true]
        split_ifs with hok
        · simp only [Bool.and_eq_true, decide_eq_true_eq] at hok
          rw [List.mem_singleton]
          constructor
          · intro hx
            exact ⟨l, v, value, hid, rfl, hok.1.1, hv, hok.1.2, hok.2, hx⟩
          · rintro ⟨l', v', value', -, heq, -, hv', -, -, rfl⟩
            cases heq
            rw [hv] at hv'
            cases hv'
            rfl
        · refine iff_of_false List.not_mem_nil ?_
          rintro ⟨l', v', value', -, heq, hhas, hv', htarget, hvalid, -⟩
          cases heq
          rw [hv] at hv'
          cases hv'
          simp [hhas, htarget, hvalid] at hok
    | _ =>
      refine iff_of_false List.not_mem_nil ?_
      rintro ⟨l, v, value, -, heq, -⟩
      cases heq

/-- Results stay. -/
theorem results_prefix_step (t : LookupTask) (e : UInt64 × LookupEvent) : t.results <+:
    (t.step e).results := by
  have hstep := step_spec t e
  cases hd : t.delivered e.2 with
  | none =>
    rw [hd] at hstep
    exact ⟨[], (List.append_nil _).trans hstep.results.symm⟩
  | some cr =>
    rw [hd] at hstep
    rw [hstep.results_eq]
    exact List.prefix_append _ _

theorem results_prefix_run (t : LookupTask) (events : List (UInt64 × LookupEvent)) :
    t.results <+: (t.run events).results := by
  induction events generalizing t with
  | nil => exact List.prefix_refl _
  | cons e events ih => exact (results_prefix_step t e).trans (ih (t.step e))

/-- The results of a run are what the lookup handed out for one of its responses. -/
theorem mem_results_iff (lookup : Lookup) (events : List (UInt64 × LookupEvent))
    (x : LookupResult) :
    x ∈ ((new lookup).run events).results ↔ ∃ pre e post call r, events = pre ++ e :: post ∧
      ((new lookup).run pre).delivered e.2 = some (call, r) ∧
      x ∈ ((new lookup).run pre).handed call.target r := by
  constructor
  · intro h
    refine (Runs.exists_step (Q := fun events => x ∈ ((new lookup).run events).results)
      (P := fun pre e => ∃ call r, ((new lookup).run pre).delivered e.2 = some (call, r) ∧
        x ∈ ((new lookup).run pre).handed call.target r)
          (by simp [run, new]) ?_ h).imp fun pre hpre => ?_
    · intro pre e hlast
      have hstep := step_spec ((new lookup).run pre) e
      rw [run_append] at hlast
      change x ∈ (((new lookup).run pre).step e).results at hlast
      cases hd : ((new lookup).run pre).delivered e.2 with
      | none =>
        rw [hd] at hstep
        rw [hstep.results] at hlast
        exact .inl hlast
      | some cr =>
        rw [hd] at hstep
        rw [hstep.results_eq, List.mem_append] at hlast
        exact hlast.imp id fun hx => ⟨cr.1, cr.2, rfl, hx⟩
    · obtain ⟨e, post, heq, call, r, hd, hx⟩ := hpre
      exact ⟨e, post, call, r, heq, hd, hx⟩
  · rintro ⟨pre, e, post, call, r, rfl, hd, hx⟩
    have hstep := step_spec ((new lookup).run pre) e
    rw [hd] at hstep
    have hadded : x ∈ (((new lookup).run pre).step e).results := by
      rw [hstep.results_eq]
      exact List.mem_append_right _ hx
    rw [run_append]
    exact (results_prefix_run _ post).subset hadded

/-- What is handed out is on target, except for peers of another id. -/
theorem handed_onTarget (x : LookupResult) (hx : x ∈ t.handed id r) (hpeer : t.kind ≠ .peer) :
    OnTarget t.toLookup x := by
  cases hfits : r.fits id t.kind.method with
  | false =>
    rw [handed_of_not_fits hfits] at hx
    cases hx
  | true =>
    rw [handed_of_fits hfits] at hx
    cases hkind : t.kind with
    | node =>
      rw [hkind] at hx
      dsimp only [handedNodes] at hx
      split at hx
      · obtain ⟨n, hn, rfl⟩ := List.mem_map.mp hx
        have htarget : n.nodeId = t.target := by simpa using (List.mem_filter.mp hn).2
        exact htarget
      · cases hx
    | value =>
      rw [hkind] at hx
      dsimp only [handedValue] at hx
      split at hx
      · split at hx
        · split_ifs at hx with hok
          · obtain rfl := List.mem_singleton.mp hx
            simp only [Bool.and_eq_true, decide_eq_true_eq] at hok
            exact ⟨hok.1.2, hok.1.1.2⟩
          · cases hx
        · cases hx
      · cases hx
    | peer => exact absurd hkind hpeer

theorem handed_onTarget_iff {call : LookupCall} (hd : t.delivered e.2 = some (call, r)) :
    (∀ x ∈ t.handed call.target r, OnTarget t.toLookup x) ↔ ¬ t.TakesOthers e.2 := by
  by_cases hkind : t.kind = .peer
  · constructor
    · rintro h ⟨-, call', r', l, peers, hd', hid, hc, hvalid, p, hp, hne⟩
      rw [hd] at hd'
      cases hd'
      have hx := (mem_handed_peer hkind (.peers peers)).mpr
        ⟨l, peers, hid, hc, List.ne_nil_of_mem hp, hvalid, rfl⟩
      exact hne (h _ hx p hp).2
    · intro h x hx
      obtain ⟨l, peers, hid, hc, -, hvalid, rfl⟩ := (mem_handed_peer hkind x).mp hx
      refine fun p hp => ⟨hvalid p hp, ?_⟩
      by_contra hne
      exact h ⟨hkind, call, r, l, peers, hd, hid, hc, hvalid, p, hp, hne⟩
  · exact iff_of_true (fun x hx => handed_onTarget x hx hkind) fun h => hkind h.1

/-- What a step adds to the results is on target exactly if it takes no peers of another id. -/
theorem step_onTarget_iff (t : LookupTask) (e : UInt64 × LookupEvent) :
    (∀ x ∈ (t.step e).results, OnTarget t.toLookup x) ↔
      (∀ x ∈ t.results, OnTarget t.toLookup x) ∧ ¬ t.TakesOthers e.2 := by
  have hstep := step_spec t e
  cases hd : t.delivered e.2 with
  | none =>
    rw [hd] at hstep
    rw [hstep.results]
    refine (and_iff_left ?_).symm
    rintro ⟨-, call, r, l, peers, hd', -⟩
    rw [hd] at hd'
    cases hd'
  | some cr =>
    obtain ⟨call, r⟩ := cr
    rw [hd] at hstep
    rw [hstep.results_eq, List.forall_mem_append, handed_onTarget_iff hd]

/-- All results of a run are on target exactly if the lookup never accepts peers of another id. -/
theorem results_onTarget_iff (lookup : Lookup) (events : List (UInt64 × LookupEvent)) :
    (∀ x ∈ ((new lookup).run events).results, OnTarget lookup x) ↔
      Runs.Every (fun pre e => ¬ ((new lookup).run pre).TakesOthers e.2) events := by
  refine Runs.iff_every (Q := fun pre => ∀ x ∈ ((new lookup).run pre).results, OnTarget lookup x)
    (by simp [run, new])
    (fun pre e => ?_) events
  have hstep := step_onTarget_iff ((new lookup).run pre) e
  rw [lookup_run] at hstep
  rw [run_append]
  exact hstep

end LookupTask

end Boson
