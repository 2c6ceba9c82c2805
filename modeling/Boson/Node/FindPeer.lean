import Boson.Node
import Boson.Task.Responses

/-!
# Finding peers (`Node::findPeer`, `DHT::findPeer`)

`findPeer` reads the peers of its storage, starts a lookup in each of the DHTs and waits for them
all. Each time that one of them ends, the peers that are known by then are written to the storage.

* `findPeer_onTarget_iff`: what lookups hand out is authentic and on target, except for peers of
  another id; without these, `findPeer` neither returns nor stores a peer of another id.
-/

namespace Boson

/-- `DHT::findPeer`: the peers that the result handler collected, when the lookup ends. -/
def LookupTask.foundPeers (self : LookupTask) : List PeerInfo :=
  self.results.flatMap fun
    | .peers ps => ps
    | _ => []

/-- What a `std::set<PeerInfo>` compares. -/
def PeerInfo.key (self : PeerInfo) : Id × Id × Id := (self.publicKey, self.nodeId, self.origin)

/-- The state of one `Node::findPeer`: `dedup_result`, `results`, `completion` and the promise. -/
structure FindPeer where
  numDHTs : Nat
  dedupResult : List (Id × Id × Id) := []
  results : List PeerInfo := []
  completion : Nat := 0
  promise : Option (List PeerInfo) := none

namespace FindPeer

/-- A peer goes to the results if it is new. -/
def insert (self : FindPeer) (item : PeerInfo) : FindPeer :=
  if item.key ∈ self.dedupResult then self
  else { self with dedupResult := item.key :: self.dedupResult, results := self.results ++ [item] }

/-- `Node::findPeer` up to the lookups: `stored` are the peers of the storage. With enough of them
an `ARBITRARY` lookup is over. -/
def start (numDHTs : Nat) (stored : List PeerInfo) (expected : Int) (arbitrary : Bool) : FindPeer :=
  let self := stored.foldl insert { numDHTs := numDHTs }
  if expected > 0 ∧ self.results.length ≥ expected ∧ arbitrary then
    { self with promise := some self.results, results := [] }
  else self

/-- The completion handler of `Node::findPeer`, up to `putPeer`: the peers of a lookup come to the
others. -/
def collect (self : FindPeer) (peers : List PeerInfo) : FindPeer :=
  peers.foldl insert { self with completion := self.completion + 1 }

/-- The end of the completion handler. A promise is kept once. -/
def settle (self : FindPeer) : FindPeer :=
  if self.completion ≥ self.numDHTs ∧ self.promise = none then
    { self with promise := some self.results, results := [] }
  else self

/-- All peers of an operation have a property. -/
structure All (P : PeerInfo → Prop) (q : FindPeer) : Prop where
  results : ∀ p ∈ q.results, P p
  promise : ∀ ps, q.promise = some ps → ∀ p ∈ ps, P p

variable {P : PeerInfo → Prop} {self : FindPeer} {peers : List PeerInfo}

theorem All.insert (h : All P self) {item : PeerInfo} (hitem : P item) :
    All P (self.insert item) := by
  unfold FindPeer.insert
  split_ifs
  · exact h
  · refine ⟨fun p hp => ?_, h.promise⟩
    obtain hp | hp := List.mem_append.mp hp
    · exact h.results p hp
    · rw [List.mem_singleton.mp hp]
      exact hitem

theorem All.foldl_insert (h : All P self) (hpeers : ∀ p ∈ peers, P p) :
    All P (peers.foldl FindPeer.insert self) := by
  induction peers generalizing self with
  | nil => exact h
  | cons p peers ih =>
    rw [List.forall_mem_cons] at hpeers
    exact ih (h.insert hpeers.1) hpeers.2

theorem All.keep (h : All P self) :
    All P { self with promise := some self.results, results := [] } := by
  refine ⟨by simp, fun ps hps => ?_⟩
  cases hps
  exact h.results

theorem all_start {numDHTs : Nat} {stored : List PeerInfo} {expected : Int} {arbitrary : Bool}
    (hstored : ∀ p ∈ stored, P p) : All P (start numDHTs stored expected arbitrary) := by
  have hnew : All P { numDHTs := numDHTs } := ⟨by simp, by simp⟩
  unfold start
  dsimp only
  split_ifs
  · exact (hnew.foldl_insert hstored).keep
  · exact hnew.foldl_insert hstored

theorem All.collect (h : All P self) (hpeers : ∀ p ∈ peers, P p) : All P (self.collect peers) :=
  foldl_insert ⟨h.results, h.promise⟩ hpeers

theorem All.settle (h : All P self) : All P self.settle := by
  unfold FindPeer.settle
  split_ifs
  · exact h.keep
  · exact h

/-- An operation with the lookups of its DHTs, in the order in which they end: what is stored each
time, and the state at the end. -/
def run (self : FindPeer) : List (List PeerInfo) → List (List PeerInfo) × FindPeer
  | [] => ([], self)
  | peers :: rest =>
    let self := self.collect peers
    let (stored, after) := self.settle.run rest
    (self.results :: stored, after)

/-- A property of the peers of the storage and of the lookups is one of what is stored and
returned. -/
theorem All.run (h : All P self) {found : List (List PeerInfo)}
    (hfound : ∀ ps ∈ found, ∀ p ∈ ps, P p) :
    (∀ ps ∈ (self.run found).1, ∀ p ∈ ps, P p) ∧ All P (self.run found).2 := by
  induction found generalizing self with
  | nil => exact ⟨by simp [FindPeer.run], h⟩
  | cons peers rest ih =>
    rw [List.forall_mem_cons] at hfound
    have hcollect := h.collect hfound.1
    obtain ⟨hstored, hafter⟩ := ih hcollect.settle hfound.2
    exact ⟨List.forall_mem_cons.mpr ⟨hcollect.results, hstored⟩, hafter⟩

/-- The peers that a lookup found, when its events are these. -/
def lookedUp (l : Lookup × List (UInt64 × LookupTask.LookupEvent)) : List PeerInfo :=
  ((LookupTask.new l.1).run l.2).foundPeers

end FindPeer

/-- What the storage finds under an id stems from a row with that id. -/
theorem PeerTable.mem_getPeer {self : PeerTable} {C : Crypto} {R : RandomOrder}
    {now : Nat} {peerId : Id} {maxPeers : Int} {peers : List PeerInfo}
    (h : self.getPeer C R now peerId maxPeers = .ok peers) :
    ∀ p ∈ peers, ∃ row ∈ self.rows, row.id = peerId ∧ row.toPeer C = .ok p := by
  intro p hp
  obtain ⟨row, hrow, hpeer⟩ := FoldM.mem_mapM h p hp
  have hlive := (R.perm _).mem_iff.mp (List.mem_of_mem_take hrow)
  simp only [liveRows, List.mem_filter, Bool.and_eq_true, decide_eq_true_eq] at hlive
  exact ⟨row, hlive.1, hlive.2.1, hpeer⟩

theorem PeerTable.getPeer_publicKey {self : PeerTable} {C : Crypto} {R : RandomOrder} {now : Nat}
    {peerId : Id} {maxPeers : Int} {peers : List PeerInfo}
    (h : self.getPeer C R now peerId maxPeers = .ok peers) : ∀ p ∈ peers, p.publicKey = peerId := by
  intro p hp
  obtain ⟨row, -, rfl, hpeer⟩ := PeerTable.mem_getPeer h p hp
  have hmade := (PeerInfo.made_of_eq_ok hpeer).publicKey
  rw [Id.ofBlob?_bytes] at hmade
  exact (Option.some.inj hmade).symm

namespace FindPeer

theorem lookedUp_publicKey {l : Lookup × List (UInt64 × LookupTask.LookupEvent)}
    (h : ∀ x ∈ ((LookupTask.new l.1).run l.2).results, LookupTask.OnTarget l.1 x) :
    ∀ p ∈ lookedUp l, p.publicKey = l.1.target := by
  intro p hp
  obtain ⟨x, hx, hp⟩ := List.mem_flatMap.mp hp
  cases x with
  | peers ps => exact (h _ hx p hp).2
  | _ => cases hp

open LookupTask in
/-- What a peer lookup hands out is valid and stems from a response. -/
theorem peers_of_mem_results {lookup : Lookup} (hkind : lookup.kind = .peer)
    {events : List (UInt64 × LookupEvent)} {ps : List PeerInfo}
    (h : .peers ps ∈ ((new lookup).run events).results) :
    (∀ p ∈ ps, p.isValid lookup.crypto = true) ∧ ∃ t key r l,
    (t, .call key (.responded r)) ∈ events ∧
      r.response.content = .findPeerResponse l ps := by
  obtain ⟨pre, e, post, call, r, rfl, hd, hx⟩ := (mem_results_iff lookup events _).mp h
  have hsame := lookup_run lookup pre
  have hk : ((new lookup).run pre).kind = .peer := by rw [hsame, hkind]
  obtain ⟨l, peers, -, hc, -, hvalid, hps⟩ := (mem_handed_peer hk _).mp hx
  cases hps
  rw [hsame] at hvalid
  obtain ⟨key, he⟩ := delivered_eq hd
  refine ⟨hvalid, e.1, key, r, l, ?_, hc⟩
  rw [← he]
  exact List.mem_append_right pre List.mem_cons_self

open LookupTask in
/-- The results of a lookup are authentic and on target exactly if it never accepts peers of another
id. An operation `findPeer` whose lookups do not accept any stores and returns only peers of the id
asked for. -/
theorem findPeer_onTarget_iff (lookup : Lookup) (events : List (UInt64 × LookupEvent)) (C : Crypto)
    (R : RandomOrder) (table : PeerTable) (now : Nat) (id : Id) (expected : Int) (arbitrary : Bool)
    (numDHTs : Nat) (stored : List PeerInfo)
    (lookups : List (Lookup × List (UInt64 × LookupEvent))) :
    ((∀ x ∈ ((new lookup).run events).results, OnTarget lookup x) ↔
      Runs.Every (fun pre e => ¬ ((new lookup).run pre).TakesOthers e.2) events) ∧
    (table.getPeer C R now id expected = .ok stored →
      (∀ l ∈ lookups, l.1.target = id ∧
        Runs.Every (fun pre e => ¬ ((new l.1).run pre).TakesOthers e.2) l.2) →
      (∀ ps ∈ ((start numDHTs stored expected arbitrary).run (lookups.map lookedUp)).1, ∀ p ∈ ps,
        p.publicKey = id) ∧
      All (fun p => p.publicKey = id)
        ((start numDHTs stored expected arbitrary).run (lookups.map lookedUp)).2) := by
  refine ⟨results_onTarget_iff lookup events, fun hstored hlookups => ?_⟩
  refine All.run (all_start (PeerTable.getPeer_publicKey hstored)) ?_
  intro ps hps
  obtain ⟨l, hl, rfl⟩ := List.mem_map.mp hps
  obtain ⟨rfl, hevery⟩ := hlookups l hl
  exact lookedUp_publicKey ((results_onTarget_iff l.1 l.2).mpr hevery)

/-- A peer of the id `Id.MAX_ID`. -/
def otherPeer : PeerInfo where
  publicKey := Id.MAX_ID
  nodeId := Id.zero
  origin := Id.zero
  port := 80
  signature := List.replicate 64 0
  port_ok := by decide
  signature_ok := rfl

/-- A peer lookup for which every signature is good. -/
def trusting : Lookup :=
  { LookupTask.lookupAt .peer 0x80 with
    crypto := { sha256 := fun _ => Id.zero, verify := fun _ _ _ => true } }

/-- A peer lookup for the id of `otherPeer`. -/
def seeking : Lookup := { trusting with target := Id.MAX_ID }

/-- The called node answers with `otherPeer`. -/
def seekingEvents : List (UInt64 × LookupTask.LookupEvent) :=
  [(1, .start [.info (LookupTask.nodeAt 1)]),
    (2, LookupTask.answer 0 1 (.findPeerResponse {} [otherPeer]))]

/-- A peer of the same id, announced by another node. -/
def storedPeer : PeerInfo := { otherPeer with origin := Id.zero.setByte 0 2 }

open LookupTask in
/-- An operation that has a stored peer and finds another: it returns both, and all are of the id
asked for. -/
theorem findPeer_onTarget_seeking :
    ((start 1 [storedPeer] 2 true).run [lookedUp (seeking, seekingEvents)]).2.promise =
        some [storedPeer, otherPeer] ∧
      All (fun p => p.publicKey = Id.MAX_ID)
        ((start 1 [storedPeer] 2 true).run [lookedUp (seeking, seekingEvents)]).2 := by
  have hfound : lookedUp (seeking, seekingEvents) = [otherPeer] := by decide +kernel
  refine ⟨by rw [hfound]; decide +kernel, ?_⟩
  refine ((findPeer_onTarget_iff seeking seekingEvents seeking.crypto
    ⟨fun rows => rows, fun _ => .rfl⟩
    (PeerTable.putPeer Table.empty 0 storedPeer false false) 1 Id.MAX_ID 2 true 1 [storedPeer]
    [(seeking, seekingEvents)]).2 (by decide +kernel) (fun l hl => ?_)).2
  rw [List.mem_singleton.mp hl]
  refine ⟨rfl, (results_onTarget_iff seeking seekingEvents).mp fun x hx => ?_⟩
  have hresults : ((new seeking).run seekingEvents).results = [.peers [otherPeer]] := by
    decide +kernel
  rw [hresults, List.mem_singleton] at hx
  rw [hx]
  exact fun p hp => by rw [List.mem_singleton.mp hp]; decide +kernel

open LookupTask in
/-- The lookup hands out a peer of another id. -/
theorem not_onTarget_otherPeer :
    ¬ ∀ x ∈ ((new trusting).run [(1, .start [.info (nodeAt 1)]),
      (2, answer 0 1 (.findPeerResponse {} [otherPeer]))]).results, OnTarget trusting x := by
  intro h
  have hmem : LookupResult.peers [otherPeer] ∈ ((new trusting).run [(1, .start [.info (nodeAt 1)]),
      (2, answer 0 1 (.findPeerResponse {} [otherPeer]))]).results := by
    decide +kernel
  exact absurd (h _ hmem otherPeer List.mem_cons_self).2 (by decide)

end FindPeer

end Boson
