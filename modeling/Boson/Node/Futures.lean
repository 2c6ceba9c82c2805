import Boson.Lib.Countdown
import Boson.Node.Restart
import Boson.Node.Storage

/-!
# The futures of a node (`Node::findNode`, `findValue`, `findPeer`, `storeValue`, `announcePeer`)

Each of the five operations returns a future. Some are answered with what the node knows itself. The
others start an operation in each of the DHTs with a completion handler that they share: it counts
the completions and sets the promise when all the DHTs are through. With `OPTIMISTIC`, `findNode`
and `findValue` set it as soon as a DHT has found something, and again when the last one is through.

* `set_once_iff`: when a promise is set exactly once.
-/

namespace Boson

/-- `Result<T>`. -/
structure Result (α : Type) where
  v4 : Option α
  v6 : Option α

namespace Result

variable {α : Type}

/-- `Result::hasValue`. -/
def hasValue (self : Result α) : Bool := self.v4.isSome || self.v6.isSome

/-- `Result::setValue`. -/
def setValue (self : Result α) (network : Network) (value : α) : Result α :=
  match network with
  | .ipv4 => { self with v4 := some value }
  | .ipv6 => { self with v6 := some value }

end Result

/-- The state of one `Node::findNode`: `results` and `completion`. -/
structure FindNode where
  numDHTs : Nat
  option : LookupOption
  results : Result NodeInfo
  completion : Nat := 0

namespace FindNode

/-- `Node::findNode` up to the lookups: `entries` are the entries of the routing tables. With one of
them an `ARBITRARY` lookup is over. -/
def start (numDHTs : Nat) (option : LookupOption) (entries : Result NodeInfo) : Option FindNode :=
  if option = .arbitrary && entries.hasValue then none
  else some { numDHTs := numDHTs, option := option, results := entries }

/-- The completion handler of `Node::findNode`. -/
def collect (self : FindNode) (ni : Option NodeInfo) : FindNode :=
  { self with
    completion := self.completion + 1
    results := match ni with
      | none => self.results
      | some ni => self.results.setValue (Network.of ni.sockaddr) ni }

/-- The handler sets the promise. -/
def settles (self : FindNode) (ni : Option NodeInfo) : Bool :=
  (self.option = .optimistic && ni.isSome) || self.completion ≥ self.numDHTs

end FindNode

/-- The state of one `Node::doStoreValue` or `Node::doAnnouncePeer`: `completion`. -/
structure Announcing where
  numDHTs : Nat
  completion : Nat := 0

namespace Announcing

/-- The completion handler of `doStoreValue` and `doAnnouncePeer`. -/
def collect (self : Announcing) (_nl : List NodeInfo) : Announcing :=
  { self with completion := self.completion + 1 }

/-- The handler sets the promise. -/
def settles (self : Announcing) (_nl : List NodeInfo) : Bool := self.completion ≥ self.numDHTs

end Announcing

/-- A lookup of `findPeer` ends: the peers that it found, and whether `putPeer` returns. -/
structure FoundPeers where
  peers : List PeerInfo
  put : Bool

/-- The handler of `findPeer` sets the promise, unless `putPeer` threw before. -/
def FindPeer.settles (self : FindPeer) (found : FoundPeers) : Bool :=
  found.put && self.completion ≥ self.numDHTs

/-- A call of one of the five operations that passed the checks of its arguments, with what the DHTs
complete with, in the order in which they do. -/
inductive Operation where
  | findNode (option : LookupOption) (entries : Result NodeInfo)
      (completions : List (Option NodeInfo))
  | findValue (option : LookupOption) (localVal : Option Value.Filled)
      (completions : List (Option Value.Filled))
  | findPeer (expected : Int) (option : LookupOption) (stored : List PeerInfo)
      (completions : List FoundPeers)
  /-- `stored`: the storage took the value. -/
  | storeValue (stored : Bool) (completions : List (List NodeInfo))
  /-- `stored`: the storage took the peer. -/
  | announcePeer (stored : Bool) (completions : List (List NodeInfo))

/-- What matters of a completion: something was found that an `OPTIMISTIC` lookup waits for, and the
handler gets to its end. -/
structure Outcome where
  found : Bool
  ended : Bool := true

namespace Operation

/-- The promise is set before any DHT is asked. -/
def answered (numDHTs : Nat) : Operation → Bool
  | findNode option entries _ => (FindNode.start numDHTs option entries).isNone
  | findValue option localVal _ => (FindValue.start numDHTs option localVal).isNone
  | findPeer expected option stored _ =>
    (FindPeer.start numDHTs stored expected (option = .arbitrary)).promise.isSome
  | storeValue stored _ | announcePeer stored _ => !stored

/-- How often the promise is set, with a value or an exception. -/
def sets (numDHTs : Nat) : Operation → Nat
  | findNode option entries completions =>
    match FindNode.start numDHTs option entries with
    | none => 1
    | some q => (Countdown.done FindNode.collect FindNode.settles q completions).length
  | findValue option localVal completions =>
    match FindValue.start numDHTs option localVal with
    | none => 1
    | some q => (Countdown.done FindValue.collect FindValue.settles q completions).length
  | findPeer expected option stored completions =>
    let q := FindPeer.start numDHTs stored expected (option = .arbitrary)
    if q.promise.isSome then 1
    else (Countdown.done (fun q found => q.collect found.peers) FindPeer.settles q
      completions).length
  | storeValue stored completions | announcePeer stored completions =>
    if !stored then 1
    else (Countdown.done Announcing.collect Announcing.settles { numDHTs := numDHTs }
      completions).length

/-- What the DHTs complete with. -/
def outcomes : Operation → List Outcome
  | findNode option _ completions =>
    completions.map fun ni => { found := option = .optimistic && ni.isSome }
  | findValue option _ completions =>
    completions.map fun v => { found := option = .optimistic && v.isSome }
  | findPeer _ _ _ completions =>
    completions.map fun found => { found := false, ended := found.put }
  | storeValue _ completions | announcePeer _ completions =>
    completions.map fun _ => { found := false }

/-- Every operation that was started in a DHT has called the completion handler. -/
def Completed (node : NodeLife) (q : Operation) : Prop :=
  q.outcomes.length = if q.answered node.numDHTs then 0 else node.count

/-- The promise is set once: at once; or, where as many completions are waited for as there are
DHTs, none but the last of them found what an `OPTIMISTIC` lookup waits for, and the handler gets to
its end for that one; or, where more are waited for, a single one found such a thing; or, where
fewer are waited for, the handler gets to its end for a single one of those from then on. -/
def SetOnce (node : NodeLife) (q : Operation) : Prop :=
  q.answered node.numDHTs = true ∨
    (max node.numDHTs 1 = node.count ∧ (∀ o ∈ q.outcomes.dropLast, o.found = false) ∧
      ∀ o ∈ q.outcomes.getLast?, o.ended = true) ∨
    (node.count < node.numDHTs ∧ q.outcomes.countP Outcome.found = 1) ∨
    (max node.numDHTs 1 < node.count ∧
      (q.outcomes.drop (node.numDHTs - 1)).countP Outcome.ended = 1)

end Operation

/-! ## The handlers -/

theorem FindNode.waits (numDHTs : Nat) (option : LookupOption) :
    Countdown.Waits collect settles completion numDHTs (fun q => q.numDHTs = numDHTs ∧
      q.option = option)
      (fun ni => option = .optimistic && ni.isSome) fun _ => true where
  keeps h _ := h
  counts _ _ := rfl
  settles_eq h _ := by
    obtain ⟨rfl, rfl⟩ := h
    rw [Bool.and_true]
    rfl

theorem FindNode.of_start {numDHTs : Nat} {option : LookupOption} {entries : Result NodeInfo}
    {q : FindNode} (h : start numDHTs option entries = some q) :
    (q.numDHTs = numDHTs ∧ q.option = option) ∧ q.completion = 0 := by
  unfold start at h
  split_ifs at h
  cases h
  exact ⟨⟨rfl, rfl⟩, rfl⟩

theorem FindValue.of_start {numDHTs : Nat} {option : LookupOption} {localVal : Option Value.Filled}
    {q : FindValue} (h : start numDHTs option localVal = some q) :
    (q.numDHTs = numDHTs ∧ q.option = option) ∧ q.completion = 0 := by
  unfold start at h
  split_ifs at h
  cases h
  exact ⟨⟨rfl, rfl⟩, rfl⟩

theorem FindValue.waits (numDHTs : Nat) (option : LookupOption) :
    Countdown.Waits collect settles completion numDHTs (fun q => q.numDHTs = numDHTs ∧
      q.option = option)
      (fun v => option = .optimistic && v.isSome) fun _ => true where
  keeps h _ := h
  counts _ _ := rfl
  settles_eq h _ := by
    obtain ⟨rfl, rfl⟩ := h
    rw [Bool.and_true]
    rfl

theorem Announcing.waits (numDHTs : Nat) :
    Countdown.Waits collect settles completion numDHTs (fun q => q.numDHTs = numDHTs)
      (fun _ => false)
      fun _ => true where
  keeps h _ := h
  counts _ _ := rfl
  settles_eq h _ := by
    subst h
    simp [settles, collect]

namespace FindPeer

@[simp] theorem insert_numDHTs (self : FindPeer) (item : PeerInfo) : (self.insert item).numDHTs =
    self.numDHTs := by
  unfold FindPeer.insert
  split_ifs <;> rfl

@[simp] theorem insert_completion (self : FindPeer) (item : PeerInfo) :
    (self.insert item).completion = self.completion := by
  unfold FindPeer.insert
  split_ifs <;> rfl

/-- Peers that come to the results change nothing else. -/
theorem foldl_insert_counters (self : FindPeer) (peers : List PeerInfo) :
    (peers.foldl FindPeer.insert self).numDHTs = self.numDHTs ∧
      (peers.foldl FindPeer.insert self).completion = self.completion := by
  induction peers generalizing self with
  | nil => exact ⟨rfl, rfl⟩
  | cons p peers ih =>
    obtain ⟨hnum, hcompletion⟩ := ih (self.insert p)
    exact ⟨by simpa using hnum, by simpa using hcompletion⟩

theorem start_counters (numDHTs : Nat) (stored : List PeerInfo) (expected : Int)
    (arbitrary : Bool) :
    (start numDHTs stored expected arbitrary).numDHTs = numDHTs ∧
      (start numDHTs stored expected arbitrary).completion = 0 := by
  have h := foldl_insert_counters { numDHTs := numDHTs } stored
  unfold start
  dsimp only
  split_ifs
  · exact h
  · exact h

theorem waits (numDHTs : Nat) :
    Countdown.Waits (fun (q : FindPeer) (found : FoundPeers) => q.collect found.peers) settles
      completion numDHTs
      (fun q => q.numDHTs = numDHTs) (fun _ => false) FoundPeers.put where
  keeps h found := (foldl_insert_counters _ found.peers).1.trans h
  counts _ found := (foldl_insert_counters _ found.peers).2
  settles_eq {q} h found := by
    obtain ⟨hnum, hcompletion⟩ :=
      foldl_insert_counters { q with completion := q.completion + 1 } found.peers
    subst h
    simp [settles, collect, hnum, hcompletion, Bool.and_comm]

end FindPeer

namespace Operation

/-- A handler that waits, in terms of the outcomes of its calls. -/
theorem length_done_eq {σ α : Type} {collect : σ → α → σ} {settles : σ → α → Bool}
    {count : σ → Nat} {n : Nat} {I : σ → Prop} (o : α → Outcome)
    (h : Countdown.Waits collect settles count n I (fun a => (o a).found) fun a => (o a).ended)
    (s : σ) (hs : I s) (hcount : count s = 0) (completions : List α) :
    (Countdown.done collect settles s completions).length =
      ((completions.map o).take (n - 1)).countP Outcome.found +
        ((completions.map o).drop (n - 1)).countP fun o => o.found || o.ended := by
  rw [h.length_done hs, hcount, Nat.sub_zero, ← List.map_take, ← List.map_drop, List.countP_map,
    List.countP_map]
  rfl

/-- How often the promise is set when it is not set at once. -/
theorem sets_eq {numDHTs : Nat} {q : Operation} (h : q.answered numDHTs = false) :
    q.sets numDHTs = (q.outcomes.take (numDHTs - 1)).countP Outcome.found +
      (q.outcomes.drop (numDHTs - 1)).countP fun o => o.found || o.ended := by
  cases q with
  | findNode option entries completions =>
    unfold answered at h
    obtain ⟨q, hq⟩ := Option.isSome_iff_exists.mp (Option.isNone_eq_false_iff.mp h)
    obtain ⟨hI, hcount⟩ := FindNode.of_start hq
    simp only [sets, hq, outcomes]
    exact length_done_eq _ (FindNode.waits numDHTs option) q hI hcount completions
  | findValue option localVal completions =>
    unfold answered at h
    obtain ⟨q, hq⟩ := Option.isSome_iff_exists.mp (Option.isNone_eq_false_iff.mp h)
    obtain ⟨hI, hcount⟩ := FindValue.of_start hq
    simp only [sets, hq, outcomes]
    exact length_done_eq _ (FindValue.waits numDHTs option) q hI hcount completions
  | findPeer expected option stored completions =>
    unfold answered at h
    obtain ⟨hI, hcount⟩ := FindPeer.start_counters numDHTs stored expected (option = .arbitrary)
    simp only [sets, h, outcomes]
    exact length_done_eq (fun found => ⟨false, found.put⟩) (FindPeer.waits numDHTs)
      (FindPeer.start numDHTs stored expected (option = .arbitrary)) hI hcount completions
  | storeValue stored completions =>
    unfold answered at h
    simp only [sets, h, outcomes]
    exact length_done_eq (fun _ => ⟨false, true⟩) (Announcing.waits numDHTs) _ rfl rfl completions
  | announcePeer stored completions =>
    unfold answered at h
    simp only [sets, h, outcomes]
    exact length_done_eq (fun _ => ⟨false, true⟩) (Announcing.waits numDHTs) _ rfl rfl completions

theorem sets_of_answered {numDHTs : Nat} {q : Operation} (h : q.answered numDHTs = true) :
    q.sets numDHTs = 1 := by
  cases q with
  | findNode option entries completions =>
    unfold answered at h
    simp only [sets, Option.isNone_iff_eq_none.mp h]
  | findValue option localVal completions =>
    unfold answered at h
    simp only [sets, Option.isNone_iff_eq_none.mp h]
  | findPeer expected option stored completions => exact if_pos h
  | storeValue stored completions => exact if_pos h
  | announcePeer stored completions => exact if_pos h

/-- Only the handler of `findPeer` may not get to its end, and only the others may find something
early. -/
theorem found_or_ended (q : Operation) : (∀ o ∈ q.outcomes, o.found = false) ∨ ∀ o ∈ q.outcomes,
    o.ended = true := by
  cases q <;> simp [outcomes]

/-- When the promise of an operation is set exactly once. -/
theorem set_once_iff (node : NodeLife) (q : Operation) (hcompleted : q.Completed node) :
    q.sets node.numDHTs = 1 ↔ q.SetOnce node := by
  unfold Completed at hcompleted
  unfold SetOnce
  cases hanswered : q.answered node.numDHTs with
  | true => simp [sets_of_answered hanswered]
  | false =>
    simp only [hanswered, Bool.false_eq_true, if_false, false_or] at hcompleted ⊢
    rw [sets_eq hanswered, ← hcompleted]
    exact Countdown.once_iff q.found_or_ended

/-- A node with both addresses that was started. -/
def dualStack : NodeLife := .run ⟨true, true, .inl rfl⟩ [.start none]

theorem store_set_once :
    (storeValue true [[], []]).Completed dualStack ∧
    (storeValue true [[], []]).sets dualStack.numDHTs = 1 := by
  have hcompleted : (storeValue true [[], []]).Completed dualStack := rfl
  refine ⟨hcompleted, (set_once_iff dualStack _ hcompleted).mpr (.inr (.inl ⟨by decide, ?_, ?_⟩))⟩
  · simp [outcomes]
  · simp [outcomes]

/-- The entry of a node that both DHTs find. -/
def foundTwice : NodeInfo where
  nodeId := Id.zero
  sockaddr := .inet ⟨[203, 0, 113, 45], rfl⟩ 39001

/-- Both DHTs find the node that an `OPTIMISTIC` lookup is for. -/
theorem optimistic_set_twice :
    ¬ ∀ (config : Listening) (q : Operation), q.Completed (.run config [.start none]) →
      q.sets (NodeLife.run config [.start none]).numDHTs = 1 := by
  intro h
  have hsets := h ⟨true, true, .inl rfl⟩
    (findNode .optimistic ⟨none, none⟩ [some foundTwice, some foundTwice]) rfl
  exact absurd hsets (by decide)

end Operation

end Boson
