import Boson.Lib.Greatest
import Boson.Node.Futures

/-!
# The newest copy of a value (`Node::findValue`, `DHT::findValue`)

A value is looked for in each of the DHTs. A lookup keeps one of the values that it accepts, and the
node keeps one of those that the lookups found and of its own copy: each time a mutable value with a
greater sequence number takes the place of another.

* `conservative_newest`: where all of them are mutable, a `CONSERVATIVE` operation delivers one with
  the greatest sequence number, in whatever order they came.
-/

namespace Boson

open LookupTask Greatest

/-- The result handler of `DHT::findValue`, up to `cancel`. -/
def keepNewest (valuePtr : Option Value) (value : Value) : Option Value :=
  match valuePtr with
  | none => some value
  | some old =>
    if value.isMutable && old.sequenceNumber < value.sequenceNumber then some value else some old

/-- `DHT::findValue`: the value that the result handler kept, when the lookup ends. -/
def LookupTask.foundValue (self : LookupTask) : Option Value :=
  self.results.foldl (fun valuePtr x => match x with
    | .value value => keepNewest valuePtr value
    | _ => valuePtr) none

/-- A lookup that `DHT::findValue` started, with the events until it has ended. -/
structure ValueSearch (C : Crypto) (target : Id) where
  lookup : Lookup
  events : List (UInt64 × LookupEvent)
  kind : lookup.kind = .value
  target_eq : lookup.target = target
  expectedSequence : lookup.expectedSequence = -1
  crypto : lookup.crypto = C
  ended : ((new lookup).run events).isFinished = true

namespace ValueSearch

variable {C : Crypto} {target : Id}

/-- The value was accepted: it came with a response to a call of the lookup, is valid and has the id
that was looked for. -/
def Accepted (self : ValueSearch C target) (value : Value) : Prop :=
  ∃ pre e post call r l v, self.events = pre ++ e :: post ∧
    ((new self.lookup).run pre).delivered e.2 = some (call, r) ∧ r.response.id = call.target ∧
    r.response.content = .findValueResponse l v ∧ v.hasValue = true ∧ v.getValue = .ok value ∧
    value.getId C = target ∧ value.isValid C = true

/-- What the lookup completes with. -/
def found (self : ValueSearch C target) : Option Value :=
  ((new self.lookup).run self.events).foundValue

theorem accepted_iff (self : ValueSearch C target) (value : Value) :
    self.Accepted value ↔ .value value ∈ ((new self.lookup).run self.events).results := by
  have hhanded (pre : List (UInt64 × LookupEvent)) (id : Id) (r : Responded) (x : LookupResult) :
      x ∈ ((new self.lookup).run pre).handed id r ↔ ∃ l v value, r.response.id = id ∧
        r.response.content = .findValueResponse l v ∧ v.hasValue = true ∧ v.getValue = .ok value ∧
        value.getId C = target ∧ value.isValid C = true ∧ x = .value value := by
    have hsame := lookup_run self.lookup pre
    rw [mem_handed_value (by rw [hsame, self.kind]) (by rw [hsame, self.expectedSequence]), hsame,
      self.crypto, self.target_eq]
  rw [mem_results_iff]
  constructor
  · rintro ⟨pre, e, post, call, r, l, v, heq, hd, hid, hc, hhas, hv, htarget, hvalid⟩
    exact ⟨pre, e, post, call, r, heq, hd,
      (hhanded pre call.target r _).mpr ⟨l, v, value, hid, hc, hhas, hv, htarget, hvalid, rfl⟩⟩
  · rintro ⟨pre, e, post, call, r, heq, hd, hx⟩
    obtain ⟨l, v, value', hid, hc, hhas, hv, htarget, hvalid, hsame⟩ :=
      (hhanded pre call.target r _).mp hx
    cases hsame
    exact ⟨pre, e, post, call, r, l, v, heq, hd, hid, hc, hhas, hv, htarget, hvalid⟩

theorem Accepted.isValid {self : ValueSearch C target} {value : Value} (h : self.Accepted value) :
    value.isValid C = true := by
  obtain ⟨_, _, _, _, _, _, _, _, _, _, _, _, _, _, hvalid⟩ := h
  exact hvalid

end ValueSearch

/-! ## The two handlers -/

/-- The sequence number of a value. -/
def seq (value : Value) : Int := value.sequenceNumber.toInt

theorem keepNewest_eq_merge {valuePtr : Option Value} {value : Value} (h : value.isMutable = true) :
    keepNewest valuePtr value = merge seq valuePtr (some value) := by
  cases valuePtr with
  | none => rfl
  | some old =>
    unfold keepNewest
    change _ = if seq old < seq value then some value else some old
    simp only [h, Bool.true_and, decide_eq_true_eq, Int32.lt_iff_toInt_lt]
    rfl

/-- The value that the result handler has after a result. -/
theorem foundValue_isBest {results : List LookupResult}
    (h : ∀ v, .value v ∈ results → v.isMutable = true) :
    IsBest seq {v | .value v ∈ results} (results.foldl (fun valuePtr x => match x with
      | .value value => keepNewest valuePtr value
      | _ => valuePtr) none) := by
  induction results using List.reverseRecOn with
  | nil => simpa using isBest_empty
  | append_singleton results x ih =>
    have hrest := ih fun v hv => h v (List.mem_append_left _ hv)
    rw [List.foldl_append]
    dsimp only [List.foldl_cons, List.foldl_nil]
    cases x with
    | value v =>
      have hset : {w | LookupResult.value w ∈ results ++ [.value v]} =
          {w | .value w ∈ results} ∪ {v} := by
        ext w
        simp [or_comm]
      dsimp only
      rw [hset, keepNewest_eq_merge (h v (by simp))]
      exact hrest.union (isBest_singleton v)
    | _ => simpa using hrest

theorem ValueSearch.found_isBest {C : Crypto} {target : Id} (self : ValueSearch C target)
    (h : ∀ v, self.Accepted v → v.isMutable = true) :
    IsBest seq {v | self.Accepted v} self.found := by
  simp only [self.accepted_iff] at h ⊢
  exact foundValue_isBest h

/-- A value that has data. -/
def Value.filled? (value : Value) : Option Value.Filled :=
  if h : value.data ≠ [] then some ⟨value, h⟩ else none

namespace FindValue

variable {C : Crypto} {target : Id} {localVal : Option Value.Filled}
    {searches : List (ValueSearch C target)}

/-- The values that `Node::findValue` sets its promise to, when the lookups end in this order. A
value that a lookup accepted has data. -/
def delivered (option : LookupOption) (localVal : Option Value.Filled)
    (searches : List (ValueSearch C target)) :
    List (Option Value.Filled) :=
  match start searches.length option localVal with
  | none => [localVal]
  | some q =>
    (Countdown.done collect settles q (searches.map fun s => s.found.bind Value.filled?)).map
      FindValue.value

/-- The copies of a value that an operation may deliver: the one of the storage, and those that the
lookups accepted. -/
def copies (localVal : Option Value.Filled) (searches : List (ValueSearch C target)) : Set Value :=
  {v | localVal.map Subtype.val = some v ∨ ∃ s ∈ searches, s.Accepted v}

theorem map_filled {s : ValueSearch C target} (h : IsBest seq {v | s.Accepted v} s.found) :
    (s.found.bind Value.filled?).map Subtype.val = s.found := by
  cases hfound : s.found with
  | none => rfl
  | some v =>
    rw [hfound] at h
    have hdata : v.data ≠ [] := Value.data_ne_nil_of_isValid (ValueSearch.Accepted.isValid h.1)
    simp [Value.filled?, hdata]

/-- The completion handler takes a mutable value if its sequence number is greater. -/
theorem collect_value (self : FindValue) (found : Option Value.Filled)
    (h : ∀ v, found = some v → v.1.isMutable = true) :
    (self.collect found).value.map Subtype.val =
      merge seq (self.value.map Subtype.val) (found.map Subtype.val) := by
  cases found with
  | none =>
    unfold collect
    cases self.value <;> rfl
  | some v =>
    unfold collect
    dsimp only
    cases hvalue : self.value with
    | none => rfl
    | some old =>
      change _ = if seq old.1 < seq v.1 then some v.1 else some old.1
      simp only [h v rfl, Option.all_some, Bool.not_true, Bool.false_or, decide_eq_true_eq,
        Int32.lt_iff_toInt_lt]
      unfold seq
      split_ifs <;> rfl

/-- What the handler has after all lookups. -/
theorem foldl_collect_value (q : FindValue)
    (h : ∀ s ∈ searches, ∀ v, s.Accepted v → v.isMutable = true) :
    ((searches.map fun s => s.found.bind Value.filled?).foldl collect q).value.map Subtype.val =
      searches.foldl (fun o s => merge seq o s.found) (q.value.map Subtype.val) := by
  induction searches generalizing q with
  | nil => rfl
  | cons s searches ih =>
    rw [List.forall_mem_cons] at h
    have hbest := s.found_isBest h.1
    have hmap := map_filled hbest
    have hfound : ∀ v, s.found.bind Value.filled? = some v → v.1.isMutable = true := by
      intro v hv
      rw [hv] at hmap
      rw [← hmap] at hbest
      exact h.1 v.1 hbest.1
    rw [List.map_cons, List.foldl_cons, List.foldl_cons, ih _ h.2, collect_value q _ hfound, hmap]

theorem isBest_localVal (localVal : Option Value.Filled) :
    IsBest seq {v | localVal.map Subtype.val = some v} (localVal.map Subtype.val) := by
  cases localVal with
  | none => simp [IsBest]
  | some v => exact ⟨rfl, fun w hw => by cases hw; exact le_rfl⟩

/-- A `CONSERVATIVE` operation waits for all lookups, unless the copy of the storage is
immutable. -/
theorem delivered_conservative (hne : searches ≠ [])
    (hlocal : ∀ v, localVal = some v → v.1.isMutable = true) :
    delivered .conservative localVal searches =
      [((searches.map fun s => s.found.bind Value.filled?).foldl collect
      { numDHTs := searches.length, option := .conservative, value := localVal }).value] := by
  have hstart : start searches.length .conservative localVal =
      some { numDHTs := searches.length, option := .conservative, value := localVal } := by
    unfold start
    refine if_neg ?_
    cases localVal with
    | none => simp
    | some v => simp [hlocal v rfl]
  have hdone := (waits searches.length .conservative).done_eq
    (s := { numDHTs := searches.length, option := .conservative, value := localVal })
    (l := searches.map fun s => s.found.bind Value.filled?) ⟨rfl, rfl⟩
      (by simpa using hne) (by simp)
    (fun _ _ => rfl) (fun _ _ => rfl)
  unfold delivered
  rw [hstart]
  dsimp only
  rw [hdone, List.map_singleton]

theorem delivered_isBest (hne : searches ≠ [])
    (hmutable : ∀ v ∈ copies localVal searches, v.isMutable = true) {d : Option Value.Filled}
    (hd : delivered .conservative localVal searches = [d]) :
    IsBest seq (copies localVal searches) (d.map Subtype.val) := by
  have hlocal : ∀ v, localVal = some v → v.1.isMutable = true := fun v hv =>
    hmutable v.1 (.inl (by rw [hv]; rfl))
  have haccepted : ∀ s ∈ searches, ∀ v, s.Accepted v → v.isMutable = true := fun s hs v hv =>
    hmutable v (.inr ⟨s, hs, hv⟩)
  rw [delivered_conservative hne hlocal] at hd
  rw [← List.singleton_inj.mp hd, foldl_collect_value _ haccepted]
  exact (isBest_localVal localVal).foldl_merge (fun s => {v | s.Accepted v})
    ValueSearch.found searches
    fun s hs => s.found_isBest (haccepted s hs)

/-- Where the copy of the storage and all accepted values are mutable, a `CONSERVATIVE` operation
delivers one value, once: a copy with the greatest sequence number, or nothing if there is no copy.
Another operation with the same copies, in whatever order its lookups came to them, delivers one
with the same sequence number. -/
theorem conservative_newest (localVal : Option Value.Filled)
    (searches : List (ValueSearch C target)) (hne : searches ≠ [])
    (hmutable : ∀ v ∈ copies localVal searches, v.isMutable = true) :
    ∃ d, delivered .conservative localVal searches = [d] ∧
      IsBest seq (copies localVal searches) (d.map Subtype.val) ∧
      ∀ (localVal' : Option Value.Filled) (searches' : List (ValueSearch C target))
        (d' : Option Value.Filled),
        searches' ≠ [] → copies localVal' searches' = copies localVal searches →
        delivered .conservative localVal' searches' = [d'] →
        (d'.map Subtype.val).map seq = (d.map Subtype.val).map seq := by
  have hlocal : ∀ v, localVal = some v → v.1.isMutable = true := fun v hv =>
    hmutable v.1 (.inl (by rw [hv]; rfl))
  have hd := delivered_conservative hne hlocal
  have hbest := delivered_isBest hne hmutable hd
  refine ⟨_, hd, hbest, fun localVal' searches' d' hne' hsame hd' => ?_⟩
  have hbest' := delivered_isBest hne' (by rwa [hsame]) hd'
  rw [hsame] at hbest'
  exact hbest'.map_key_eq hbest

/-- A lookup whose only candidate has the copy with the sequence number 5. -/
def foundFive : ValueSearch ValueTable.ownedCrypto ValueTable.ownedId where
  lookup :=
    { lookupAt .value 0 with target := ValueTable.ownedId, crypto := ValueTable.ownedCrypto }
  events := [(1, .start [.info (nodeAt 1)]),
    (2, answer 0 1 (.findValueResponse {} (ValueFields.setValue {} ValueTable.owned5)))]
  kind := rfl
  target_eq := rfl
  expectedSequence := rfl
  crypto := rfl
  ended := by decide +kernel

theorem newest_five : ∃ d, delivered .conservative (some ⟨ValueTable.owned3, by decide⟩)
    [foundFive] = [d] ∧
    IsBest seq (copies (some ⟨ValueTable.owned3, by decide⟩) [foundFive]) (d.map Subtype.val) := by
  have hresults : ((new foundFive.lookup).run foundFive.events).results =
      [.value ValueTable.owned5] := by
    decide +kernel
  obtain ⟨d, hd, hbest, -⟩ := conservative_newest (some ⟨ValueTable.owned3, by decide⟩) [foundFive]
    (List.cons_ne_nil _ _) fun v hv => by
      obtain hv | ⟨s, hs, hv⟩ := hv
      · cases hv
        rfl
      · obtain rfl := List.mem_singleton.mp hs
        rw [ValueSearch.accepted_iff, hresults, List.mem_singleton] at hv
        cases hv
        rfl
  exact ⟨d, hd, hbest⟩

end FindValue

end Boson
