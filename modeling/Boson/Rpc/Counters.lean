import Boson.Lib.FoldM
import Boson.Rpc.Statistics
import Mathlib.Data.List.Induction

/-!
# Counters of messages (`RPCStatistics::onReceivedMessage` to `getTotalTimeoutMessages`)

A message that is received or sent is counted under its method and its type. A timeout is counted
under its method alone, in an array that has one element for each type.

* `run_ok_iff`: the counters stay inside their arrays as long as no call of another method than
  `ping` and `findNode` times out.
* `run_addsUp_iff`: exactly in these runs the counters add up, for the methods that have a counter
  of timeouts.
-/

namespace Boson

open FoldM

/-- `array[i].load()`. -/
def loadAt {α : Type} {n : Nat} (array : Vector α n) (i : Nat) : Except Fault α :=
  if h : i < n then .ok array[i] else .error .outOfBounds

/-- The sum that a `for_each` over an array makes, modulo `2 ^ 32`. -/
def sumOf {α : Type} {n : Nat} (f : α → UInt32) (array : Vector α n) : UInt32 :=
  array.toList.foldl (fun total item => total + f item) 0

/-- A message that is counted. -/
inductive Counting where
  | onReceivedMessage (msg : Message)
  | onSentMessage (msg : Message)
  | onTimeoutMessage (msg : Message)

namespace ServerStatistics

variable (self : ServerStatistics)

/-- `RPCStatistics::onTimeoutMessage`. -/
def onTimeoutMessage (msg : Message) : Except Fault ServerStatistics :=
  (fun counters => { self with timeoutMessages := counters }) <$>
    modifyAt self.timeoutMessages msg.getMethod.ordinal fun n => .ok (n + 1)

/-- A call that counts a message. -/
def countMessage : Counting → Except Fault ServerStatistics
  | .onReceivedMessage msg =>
    (fun counters => { self with toRPCStatistics := counters }) <$>
      self.toRPCStatistics.onReceivedMessage msg
  | .onSentMessage msg =>
    (fun counters => { self with toSentStatistics := counters }) <$>
      self.toSentStatistics.onSentMessage msg
  | .onTimeoutMessage msg => self.onTimeoutMessage msg

/-- The calls since the start. -/
def run (calls : List Counting) : Except Fault ServerStatistics := calls.foldlM countMessage {}

/-- `RPCStatistics::getReceivedMessages`. -/
def getReceivedMessages (method : Method) (type : MessageType) : Except Fault UInt32 := do
  loadAt (← loadAt self.receivedMessages method.ordinal) type.ordinal

/-- `RPCStatistics::getTotalReceivedMessages`. -/
def getTotalReceivedMessages : UInt32 := sumOf (sumOf id) self.receivedMessages

/-- `RPCStatistics::getSentMessages`. -/
def getSentMessages (method : Method) (type : MessageType) : Except Fault UInt32 := do
  loadAt (← loadAt self.sentMessages method.ordinal) type.ordinal

/-- `RPCStatistics::getTotalSentMessages`. -/
def getTotalSentMessages : UInt32 := sumOf (sumOf id) self.sentMessages

/-- `RPCStatistics::getTimeoutMessages`. -/
def getTimeoutMessages (method : Method) : Except Fault UInt32 :=
  loadAt self.timeoutMessages method.ordinal

/-- `RPCStatistics::getTotalTimeoutMessages`. -/
def getTotalTimeoutMessages : UInt32 := sumOf id self.timeoutMessages

end ServerStatistics

namespace Counting

/-- The call is one of `onReceivedMessage`. -/
def isReceived : Counting → Bool
  | .onReceivedMessage _ => true
  | _ => false

/-- The call is one of `onSentMessage`. -/
def isSent : Counting → Bool
  | .onSentMessage _ => true
  | _ => false

/-- The method of a message that timed out. -/
def timedOut? : Counting → Option Method
  | .onTimeoutMessage msg => some msg.getMethod
  | _ => none

/-- A message that timed out has a counter. -/
def HasCounter (call : Counting) : Prop := ∀ method, call.timedOut? = some method →
    method.ordinal < TYPE_TOTAL

end Counting

/-! ## Sums of counters -/

section Sums

variable {α : Type} {n i : Nat} {f : α → UInt32} {a : α}

theorem foldl_add_one (l : List α) (z : UInt32) :
    l.foldl (fun total item => total + f item) (z + 1) =
      l.foldl (fun total item => total + f item) z + 1 := by
  induction l generalizing z with
  | nil => rfl
  | cons b l ih =>
    rw [List.foldl_cons, List.foldl_cons, ← ih, UInt32.add_assoc z, UInt32.add_comm 1,
      ← UInt32.add_assoc]

theorem foldl_set_add_one {l : List α} (hi : i < l.length) (ha : f a = f l[i] + 1) (z : UInt32) :
    (l.set i a).foldl (fun total item => total + f item) z =
      l.foldl (fun total item => total + f item) z + 1 := by
  induction l generalizing i z with
  | nil => cases hi
  | cons b l ih =>
    cases i with
    | zero =>
      rw [List.set_cons_zero, List.foldl_cons, List.foldl_cons, ha, List.getElem_cons_zero,
        ← UInt32.add_assoc, foldl_add_one]
    | succ i => exact ih (Nat.lt_of_succ_lt_succ hi) ha _

theorem sumOf_set {array : Vector α n} (hi : i < n) (ha : f a = f array[i] + 1) :
    sumOf f (array.set i a) = sumOf f array + 1 := by
  unfold sumOf
  rw [Vector.toList_set]
  exact foldl_set_add_one (by rw [Vector.length_toList]; exact hi)
    (by rw [Vector.getElem_toList]; exact ha) 0

theorem modifyAt_eq_ok_iff {array array' : Vector α n} {g : α → Except Fault α} :
    modifyAt array i g = .ok array' ↔ ∃ hi : i < n, ∃ a,
      g array[i] = .ok a ∧ array.set i a = array' := by
  unfold modifyAt
  split
  · next hi => rw [map_eq_ok_iff, exists_prop_of_true hi]
  · next hi => exact iff_of_false (by simp) fun ⟨hi', _⟩ => hi hi'

end Sums

namespace ServerStatistics

variable {self after : ServerStatistics} {calls : List Counting} {call : Counting} {method : Method}

/-- A message is counted in the one counter of its method and type. -/
theorem sumOf_countMessage {counters counters' : Vector (Vector UInt32 TYPE_TOTAL) METHOD_TOTAL}
    {msg : Message} (h : Boson.countMessage counters msg = .ok counters') :
    sumOf (sumOf id) counters' = sumOf (sumOf id) counters + 1 := by
  obtain ⟨hmethod, row, hrow, rfl⟩ := modifyAt_eq_ok_iff.mp h
  obtain ⟨htype, n, hn, rfl⟩ := modifyAt_eq_ok_iff.mp hrow
  cases hn
  exact sumOf_set hmethod (sumOf_set htype rfl)

/-- The counters of messages that were received or sent are read inside their arrays. -/
theorem loadAt_counters (counters : Vector (Vector UInt32 TYPE_TOTAL) METHOD_TOTAL)
    (method : Method)
    (type : MessageType) :
    ∃ n, (do loadAt (← loadAt counters method.ordinal) type.ordinal) = Except.ok n := by
  have hmethod : method.ordinal < METHOD_TOTAL := by cases method <;> decide
  have htype : type.ordinal < TYPE_TOTAL := by cases type <;> decide
  exact ⟨_, bind_eq_ok_iff.mpr ⟨_, dif_pos hmethod, dif_pos htype⟩⟩

theorem getMessages_ok (stats : ServerStatistics) (method : Method) (type : MessageType) :
    (∃ n, stats.getReceivedMessages method type = .ok n) ∧
      ∃ n, stats.getSentMessages method type = .ok n :=
  ⟨loadAt_counters _ method type, loadAt_counters _ method type⟩

theorem ordinal_injective {m m' : Method} (h : m.ordinal = m'.ordinal) : m = m' := by
  cases m <;> cases m' <;> first | rfl | cases h

/-- The counters are those of the calls, modulo `2 ^ 32`. -/
structure Tally (stats : ServerStatistics) (calls : List Counting) : Prop where
  received : stats.getTotalReceivedMessages = UInt32.ofNat (calls.countP Counting.isReceived)
  sent : stats.getTotalSentMessages = UInt32.ofNat (calls.countP Counting.isSent)
  timeouts : stats.getTotalTimeoutMessages = UInt32.ofNat (calls.countP (·.timedOut?.isSome))
  byMethod : ∀ method n, stats.getTimeoutMessages method = .ok n →
    n = UInt32.ofNat (calls.countP (·.timedOut? = some method))

theorem tally_nil : Tally {} [] where
  received := by decide
  sent := by decide
  timeouts := by decide
  byMethod method n h := by
    unfold getTimeoutMessages loadAt at h
    split at h
    · cases h
      exact Vector.getElem_replicate _
    · cases h

theorem ofNat_countP_concat {p : Counting → Bool} (h : p call = true) :
    UInt32.ofNat ((calls ++ [call]).countP p) = UInt32.ofNat (calls.countP p) + 1 := by
  rw [List.countP_append, List.countP_singleton, if_pos h]
  exact UInt32.ofNat_add _ _

theorem countP_concat_of_not {p : Counting → Bool} (h : p call = false) :
    (calls ++ [call]).countP p = calls.countP p := by
  rw [List.countP_append, List.countP_singleton, h]
  rfl

/-- The counters of timeouts after one of them was increased. -/
theorem getTimeoutMessages_increased {stats : ServerStatistics} {m method : Method} {n : UInt32}
    (hm : m.ordinal < TYPE_TOTAL)
    (h : getTimeoutMessages
        { stats with
          timeoutMessages :=
          stats.timeoutMessages.set m.ordinal (stats.timeoutMessages[m.ordinal] + 1) }
        method = .ok n) :
    ∃ before, stats.getTimeoutMessages method = .ok before ∧
      n = if m = method then before + 1 else before := by
  unfold getTimeoutMessages loadAt at h ⊢
  split at h
  · next hindex =>
    rw [dif_pos hindex]
    refine ⟨_, rfl, ?_⟩
    cases h
    rw [Vector.getElem_set]
    by_cases hsame : m = method
    · subst hsame
      rw [if_pos rfl, if_pos rfl]
    · rw [if_neg hsame, if_neg (mt ordinal_injective hsame)]
  · cases h

/-- Each call is counted once. -/
theorem Tally.countMessage (h : Tally self calls) (hcall : self.countMessage call = .ok after) :
    Tally after (calls ++ [call]) := by
  cases call with
  | onReceivedMessage msg =>
    obtain ⟨stats, hstats, rfl⟩ := map_eq_ok_iff.mp hcall
    obtain ⟨counters, hcounters, rfl⟩ := map_eq_ok_iff.mp hstats
    refine ⟨?_, ?_, ?_, fun method n hn => ?_⟩
    · rw [ofNat_countP_concat rfl, ← h.received]
      exact sumOf_countMessage hcounters
    · rw [countP_concat_of_not rfl]
      exact h.sent
    · rw [countP_concat_of_not rfl]
      exact h.timeouts
    · rw [countP_concat_of_not rfl]
      exact h.byMethod method n hn
  | onSentMessage msg =>
    obtain ⟨stats, hstats, rfl⟩ := map_eq_ok_iff.mp hcall
    obtain ⟨counters, hcounters, rfl⟩ := map_eq_ok_iff.mp hstats
    refine ⟨?_, ?_, ?_, fun method n hn => ?_⟩
    · rw [countP_concat_of_not rfl]
      exact h.received
    · rw [ofNat_countP_concat rfl, ← h.sent]
      exact sumOf_countMessage hcounters
    · rw [countP_concat_of_not rfl]
      exact h.timeouts
    · rw [countP_concat_of_not rfl]
      exact h.byMethod method n hn
  | onTimeoutMessage msg =>
    obtain ⟨counters, hcounters, rfl⟩ := map_eq_ok_iff.mp hcall
    obtain ⟨hmethod, n, hn, rfl⟩ := modifyAt_eq_ok_iff.mp hcounters
    cases hn
    refine ⟨?_, ?_, ?_, fun method n hn => ?_⟩
    · rw [countP_concat_of_not rfl]
      exact h.received
    · rw [countP_concat_of_not rfl]
      exact h.sent
    · rw [ofNat_countP_concat rfl, ← h.timeouts]
      exact sumOf_set hmethod rfl
    · obtain ⟨before, hbefore, rfl⟩ := getTimeoutMessages_increased hmethod hn
      rw [h.byMethod method before hbefore]
      split_ifs with hsame
      · rw [ofNat_countP_concat (decide_eq_true (congrArg some hsame))]
      · rw [countP_concat_of_not (decide_eq_false (mt Option.some.inj hsame))]

/-- A call stays inside the arrays if and only if it has a counter. -/
theorem countMessage_ok_iff : (∃ after, self.countMessage call = .ok after) ↔ call.HasCounter := by
  cases call with
  | onReceivedMessage msg =>
    obtain ⟨stats, hstats⟩ := self.toRPCStatistics.onReceivedMessage_ok msg
    exact iff_of_true ⟨_, map_eq_ok_iff.mpr ⟨stats, hstats, rfl⟩⟩ fun _ h => by cases h
  | onSentMessage msg =>
    obtain ⟨counters, hcounters⟩ := countMessage_ok self.sentMessages msg
    exact iff_of_true ⟨_, map_eq_ok_iff.mpr ⟨_, map_eq_ok_iff.mpr ⟨counters, hcounters, rfl⟩, rfl⟩⟩
      fun _ h => by cases h
  | onTimeoutMessage msg =>
    constructor
    · rintro ⟨after, h⟩ method hmethod
      cases hmethod
      obtain ⟨counters, hcounters, rfl⟩ := map_eq_ok_iff.mp h
      exact (modifyAt_eq_ok_iff.mp hcounters).1
    · intro h
      obtain ⟨counters, hcounters⟩ := modifyAt_ok self.timeoutMessages (h _ rfl) fun n =>
          ⟨n + 1, rfl⟩
      exact ⟨_, map_eq_ok_iff.mpr ⟨counters, hcounters, rfl⟩⟩

theorem run_concat : run (calls ++ [call]) = run calls >>= (·.countMessage call) := by
  simp only [run, List.foldlM_append, List.foldlM_cons, List.foldlM_nil, bind_pure]

theorem run_tally (h : run calls = .ok self) : Tally self calls := by
  induction calls using List.reverseRecOn generalizing self with
  | nil =>
    cases h
    exact tally_nil
  | append_singleton calls call ih =>
    rw [run_concat] at h
    obtain ⟨before, hbefore, hcall⟩ := bind_eq_ok_iff.mp h
    exact (ih hbefore).countMessage hcall

/-- A run stays inside the arrays if and only if all its calls have a counter. -/
theorem run_ok_iff (calls : List Counting) : (∃ stats, run calls = .ok stats) ↔ ∀ call ∈ calls,
    call.HasCounter := by
  induction calls using List.reverseRecOn with
  | nil => exact iff_of_true ⟨{}, rfl⟩ (by simp)
  | append_singleton calls call ih =>
    rw [run_concat, List.forall_mem_append, List.forall_mem_singleton, ← ih]
    constructor
    · rintro ⟨stats, h⟩
      obtain ⟨before, hbefore, hcall⟩ := bind_eq_ok_iff.mp h
      exact ⟨⟨before, hbefore⟩, countMessage_ok_iff.mp ⟨stats, hcall⟩⟩
    · rintro ⟨⟨before, hbefore⟩, hcall⟩
      obtain ⟨stats, hstats⟩ := countMessage_ok_iff.mpr hcall
      exact ⟨stats, bind_eq_ok_iff.mpr ⟨before, hbefore, hstats⟩⟩

/-- The totals are the numbers of calls, and the counter of the method is that of its timeouts. -/
structure AddsUp (stats : ServerStatistics) (calls : List Counting) (method : Method) : Prop where
  received : stats.getTotalReceivedMessages.toNat = calls.countP Counting.isReceived
  sent : stats.getTotalSentMessages.toNat = calls.countP Counting.isSent
  timeouts : stats.getTotalTimeoutMessages.toNat = calls.countP (·.timedOut?.isSome)
  byMethod : ∃ n, stats.getTimeoutMessages method = .ok n ∧
    n.toNat = calls.countP (·.timedOut? = some method)

/-- In a run of fewer than `2 ^ 32` calls, all accesses are inside the arrays and the counters add
up if and only if every message that timed out has a counter, and the method that is asked for. -/
theorem run_addsUp_iff (calls : List Counting) (method : Method) (hshort : calls.length < 2 ^ 32) :
    (∃ stats, run calls = .ok stats ∧ stats.AddsUp calls method) ↔
      (∀ call ∈ calls, call.HasCounter) ∧ method.ordinal < TYPE_TOTAL := by
  have hcount (p : Counting → Bool) : (UInt32.ofNat (calls.countP p)).toNat = calls.countP p := by
    rw [UInt32.toNat_ofNat']
    exact Nat.mod_eq_of_lt (Nat.lt_of_le_of_lt List.countP_le_length hshort)
  rw [← run_ok_iff]
  constructor
  · rintro ⟨stats, hrun, hadds⟩
    obtain ⟨n, hn, -⟩ := hadds.byMethod
    refine ⟨⟨stats, hrun⟩, ?_⟩
    by_contra hmethod
    rw [getTimeoutMessages, loadAt, dif_neg hmethod] at hn
    cases hn
  · rintro ⟨⟨stats, hrun⟩, hmethod⟩
    have htally := run_tally hrun
    have hload : stats.getTimeoutMessages method = .ok stats.timeoutMessages[method.ordinal] :=
      dif_pos hmethod
    refine ⟨stats, hrun, ?_, ?_, ?_, _, hload, ?_⟩
    · rw [htally.received, hcount]
    · rw [htally.sent, hcount]
    · rw [htally.timeouts, hcount]
    · rw [htally.byMethod method _ hload, hcount]

/-- The timeout of a request for peers is counted past the end of the array. -/
theorem findPeer_not_addsUp :
    run [.onTimeoutMessage { content := .findPeerRequest {} }] = .error .outOfBounds ∧
      ¬ ∃ stats, run [.onTimeoutMessage { content := .findPeerRequest {} }] = .ok stats ∧
        stats.AddsUp [.onTimeoutMessage { content := .findPeerRequest {} }] .findPeer := by
  refine ⟨rfl, ?_⟩
  rintro ⟨stats, hrun, -⟩
  cases hrun

/-- A ping that times out is counted. -/
theorem ping_addsUp : ∃ stats, run [.onSentMessage { content := .pingRequest },
      .onTimeoutMessage { content := .pingRequest }] = .ok stats ∧
    stats.AddsUp [.onSentMessage { content := .pingRequest },
      .onTimeoutMessage { content := .pingRequest }] .ping :=
  (run_addsUp_iff [.onSentMessage { content := .pingRequest },
    .onTimeoutMessage { content := .pingRequest }] .ping (by decide)).mpr
    ⟨by simp [Counting.HasCounter, Counting.timedOut?, Message.getMethod, Method.ordinal,
      TYPE_TOTAL], by decide⟩

end ServerStatistics

end Boson
