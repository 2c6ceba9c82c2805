import Boson.Rpc.Server
import Mathlib.Order.Nat

/-!
# The life of a call

* `Grows s s'`: all that a handler can do. It adds calls, each outstanding or never sent, and leaves
  the others as they are (`exec_grows`).
* `Inv`: the invariant. The calls in the map are those that wait for a response.
* `Lifecycle`: what holds of the calls between any two steps.
* `run_lifecycle_iff`: it holds in all states of a run exactly if no handler that is notified of a
  timeout throws. The response path takes the call out of the map before it notifies, the timeout
  path after it.
-/

namespace Boson

namespace RPCServer

open Res

variable {s s' s'' : RPCServer} {c : Nat} {txid : Int32} {st : CallState}

/-- The call in the map under `txid`. -/
def find (self : RPCServer) (txid : Int32) : Option Nat := (self.calls.lookup txid).map (·.2)

/-! ## Small steps -/

theorem call_of_le (h : s.objs.length ≤ c) : s.call c = { remote := .empty } := by
  simp [call, List.getD_eq_getElem?_getD, List.getElem?_eq_none h]

theorem call_modifyCall (f : RPCCall → RPCCall) (c' : Nat) :
    (s.modifyCall c f).call c' = if c' = c ∧
      c < s.objs.length then f (s.call c') else s.call c' := by
  simp only [call, modifyCall, List.getD_eq_getElem?_getD, List.getElem?_modify]
  by_cases hc : c = c'
  · subst hc
    by_cases hl : c < s.objs.length
    · simp [hl]
    · simp [hl]
  · simp [hc, Ne.symm hc]

@[simp] theorem length_modifyCall (f : RPCCall → RPCCall) :
    (s.modifyCall c f).objs.length = s.objs.length := by
  simp [modifyCall]

theorem call_newCall (remote : SocketAddress) (c : Nat) :
    (s.newCall remote).call c = if c = s.objs.length then { remote := remote } else s.call c := by
  simp only [call, newCall, List.getD_eq_getElem?_getD, List.getElem?_append]
  rcases Nat.lt_trichotomy c s.objs.length with h | rfl | h
  · simp [h, h.ne]
  · simp
  · rw [if_neg (by omega), if_neg (by omega), List.getElem?_eq_none (by simp; omega),
      List.getElem?_eq_none h.le]

@[simp] theorem length_newCall (remote : SocketAddress) :
    (s.newCall remote).objs.length = s.objs.length + 1 := by
  simp [newCall]

theorem call_enter (c' : Nat) : (s.enter c st).call c' =
    if c' = c ∧ c < s.objs.length then { s.call c' with state := st } else s.call c' :=
  call_modifyCall _ _

theorem call_register (c' : Nat) : (s.register c txid).call c' =
    if c' = c ∧ c < s.objs.length then { s.call c' with txid := txid, sentTime := s.now }
    else s.call c' :=
  call_modifyCall _ _

/-- The timer is all that `schedule` changes of a call. -/
theorem call_schedule (delay c' : Nat) :
    ∃ t, (s.schedule c delay).call c' = { s.call c' with timeoutTimer := t } ∧
      (c' ≠ c → (s.schedule c delay).call c' = s.call c') := by
  have h : (s.schedule c delay).call c' = _ := call_modifyCall _ c'
  rw [h]
  by_cases hc : c' = c ∧ c < s.objs.length
  · rw [if_pos hc]
    exact ⟨_, rfl, fun hne => absurd hc.1 hne⟩
  · rw [if_neg hc]
    exact ⟨_, rfl, fun _ => rfl⟩

@[simp] theorem length_enter : (s.enter c st).objs.length = s.objs.length := length_modifyCall _

@[simp] theorem length_register : (s.register c txid).objs.length = s.objs.length :=
  length_modifyCall _

@[simp] theorem length_schedule (delay : Nat) :
    (s.schedule c delay).objs.length = s.objs.length := length_modifyCall _

@[simp] theorem length_timeoutHandler : (s.timeoutHandler c).objs.length = s.objs.length := rfl

@[simp] theorem call_timeoutHandler (c' : Nat) : (s.timeoutHandler c).call c' = s.call c' := rfl

@[simp] theorem find_enter : (s.enter c st).find txid = s.find txid := rfl

theorem find_timeoutHandler (c : Nat) (txid : Int32) :
    (s.timeoutHandler c).find txid = if txid = (s.call c).txid then none else s.find txid := by
  simp only [find, timeoutHandler, Table.lookup_deleteWhere]
  cases h : s.calls.lookup txid with
  | none => simp
  | some r =>
    by_cases hk : txid = (s.call c).txid <;> simp [Option.filter_some, Table.lookup_key h, hk]

theorem find_register (c : Nat) (txid x : Int32) :
    (s.register c txid).find x = if x = txid then some c else s.find x := by
  simp only [find, register, Table.lookup_upsert]
  split
  · cases s.calls.lookup txid <;> rfl
  · rfl

theorem takeTxid_spec : s.takeTxid.1 ≠ 0 ∧ ∃ n, s.takeTxid.2 = { s with nextTxid := n } := by
  unfold takeTxid
  split
  · rename_i h
    exact ⟨by simp [h], _, rfl⟩
  · exact ⟨‹_›, _, rfl⟩

/-! ## What a handler does to the calls -/

/-- Calls were added, each outstanding or never sent; nothing else about calls changed. -/
structure Grows (s s' : RPCServer) : Prop where
  now : s'.now = s.now
  length : s.objs.length ≤ s'.objs.length
  old : ∀ c < s.objs.length, s'.call c = s.call c
  find : ∀ txid c, s'.find txid = some c ↔ s.find txid = some c ∨
    (s.objs.length ≤ c ∧ c < s'.objs.length ∧ (s'.call c).state = .sent ∧ (s'.call c).txid = txid)
  new : ∀ c, s.objs.length ≤ c → c < s'.objs.length →
    ((s'.call c).state = .sent ∧ (s'.call c).txid ≠ 0 ∧ (s'.call c).sentTime = s.now) ∨
      (s'.call c).state = .unsent
  trace : ∃ tr, s'.trace = s.trace ++ tr ∧ ∀ n ∈ tr, n.state = .sent
  delivered : s'.delivered = s.delivered

theorem Grows.refl (s : RPCServer) : Grows s s where
  now := rfl
  length := Nat.le_refl _
  old _ _ := rfl
  find txid c := by
    refine ⟨.inl, ?_⟩
    rintro (h | ⟨h1, h2, -⟩)
    · exact h
    · omega
  new c h1 h2 := by omega
  trace := ⟨[], by simp, by simp⟩
  delivered := rfl

theorem Grows.trans (h : Grows s s') (h' : Grows s' s'') : Grows s s'' where
  now := h'.now.trans h.now
  length := h.length.trans h'.length
  old c hc := (h'.old c (Nat.lt_of_lt_of_le hc h.length)).trans (h.old c hc)
  find txid c := by
    have hlen := h.length
    have hlen' := h'.length
    rw [h'.find, h.find]
    by_cases hc : c < s'.objs.length
    · rw [h'.old c hc]
      constructor
      · rintro ((h1 | ⟨h1, -, h3⟩) | ⟨h1, -⟩)
        · exact .inl h1
        · exact .inr ⟨h1, by omega, h3⟩
        · omega
      · rintro (h1 | ⟨h1, -, h3⟩)
        · exact .inl (.inl h1)
        · exact .inl (.inr ⟨h1, hc, h3⟩)
    · constructor
      · rintro ((h1 | ⟨-, h2, -⟩) | ⟨h1, h2⟩)
        · exact .inl h1
        · omega
        · exact .inr ⟨by omega, h2⟩
      · rintro (h1 | ⟨-, h2⟩)
        · exact .inl (.inl h1)
        · exact .inr ⟨by omega, h2⟩
  new c h1 h2 := by
    by_cases hc : c < s'.objs.length
    · rw [h'.old c hc]
      exact h.new c h1 hc
    · rw [← h.now]
      exact h'.new c (by omega) h2
  trace := by
    obtain ⟨tr, htr, hs⟩ := h.trace
    obtain ⟨tr', htr', hs'⟩ := h'.trace
    refine ⟨tr ++ tr', by rw [htr', htr, List.append_assoc], fun n hn => ?_⟩
    rcases List.mem_append.mp hn with hn | hn
    · exact hs n hn
    · exact hs' n hn
  delivered := h'.delivered.trans h.delivered

/-- The timer of a new call does not matter. -/
theorem Grows.schedule (h : Grows s s') (hc : s.objs.length ≤ c) (delay : Nat) :
    Grows s (s'.schedule c delay) := by
  refine ⟨h.now, (length_schedule delay).symm ▸ h.length, fun c' hc' => ?_, fun txid c' => ?_,
    fun c' h1 h2 => ?_, h.trace, h.delivered⟩
  · obtain ⟨_, -, heq⟩ := call_schedule (s := s') (c := c) delay c'
    rw [heq (by omega), h.old c' hc']
  · obtain ⟨_, heq, -⟩ := call_schedule (s := s') (c := c) delay c'
    rw [length_schedule, heq]
    exact h.find txid c'
  · obtain ⟨_, heq, -⟩ := call_schedule (s := s') (c := c) delay c'
    rw [heq]
    exact h.new c' h1 (by simpa using h2)

/-- A new call that is not sent, since its transaction id is taken. -/
theorem grows_unsent (remote : SocketAddress) (n : Int32) :
    Grows s { s.newCall remote with nextTxid := n } where
  now := rfl
  length := by simp [newCall]
  old c hc := by
    change (s.newCall remote).call c = _
    rw [call_newCall, if_neg (by omega)]
  find txid c := by
    refine ⟨.inl, ?_⟩
    rintro (h | ⟨h1, h2, h3, -⟩)
    · exact h
    · change c < (s.newCall remote).objs.length at h2
      change ((s.newCall remote).call c).state = _ at h3
      rw [length_newCall] at h2
      rw [call_newCall, if_pos (by omega)] at h3
      cases h3
  new c h1 h2 := by
    change c < (s.newCall remote).objs.length at h2
    change _ ∨ ((s.newCall remote).call c).state = _
    rw [length_newCall] at h2
    rw [call_newCall, if_pos (by omega)]
    exact .inr rfl
  trace := ⟨[], by simp [newCall], by simp⟩
  delivered := rfl

/-- A new call that is registered and sent. -/
theorem grows_sent (remote : SocketAddress) (n : Int32) (htx : txid ≠ 0)
    (hfree : s.find txid = none) :
    Grows s (({ s.newCall remote with nextTxid := n }.register s.objs.length txid).enter
      s.objs.length
      .sent) := by
  have hlen : ({ s.newCall remote with nextTxid := n } : RPCServer).objs.length =
      s.objs.length + 1 :=
    length_newCall remote
  have hcall : ∀ c, ((({ s.newCall remote with nextTxid := n }.register s.objs.length txid).enter
      s.objs.length .sent).call c) = if c = s.objs.length then
        { txid := txid, remote := remote, state := .sent, sentTime := s.now } else s.call c := by
    intro c
    have hnew : ({ s.newCall remote with nextTxid := n } : RPCServer).call c = _ :=
      call_newCall remote c
    rw [call_enter, call_register, length_register, hlen, hnew]
    by_cases hc : c = s.objs.length <;> simp [hc]
    rfl
  refine ⟨rfl, by simp [hlen], fun c hc => ?_, fun x c => ?_, fun c h1 h2 => ?_, ?_, rfl⟩
  · rw [hcall, if_neg (by omega)]
  · rw [hcall, find_enter, find_register, length_enter, length_register, hlen]
    by_cases hx : x = txid
    · subst hx
      rw [if_pos rfl, hfree]
      constructor
      · intro h
        obtain rfl := Option.some.inj h
        exact .inr ⟨Nat.le_refl _, by omega, by simp⟩
      · rintro (h | ⟨h1, h2, -⟩)
        · cases h
        · rw [show c = s.objs.length by omega]
    · rw [if_neg hx]
      constructor
      · exact .inl
      · rintro (h | ⟨h1, h2, -, h4⟩)
        · exact h
        · rw [if_pos (by omega)] at h4
          exact absurd h4.symm hx
  · rw [length_enter, length_register, hlen] at h2
    rw [hcall, if_pos (by omega)]
    exact .inl ⟨rfl, htx, rfl⟩
  · exact ⟨[_], rfl, by simp⟩

theorem andThen_cases {P : RPCServer → Prop} {r : Res} {f : RPCServer → Res} (hr : P r.state)
    (hf : r.threw = false → P (f r.state).state) : P (r.andThen f).state := by
  unfold Res.andThen
  split
  · exact hr
  · rename_i ht
    exact hf (by simpa using ht)

/-- Sending a call, with a handler that itself only adds calls. -/
theorem sendCall_grows (remote : SocketAddress) (fails : Bool) {handler : RPCServer → Res}
    (hh : ∀ s, Grows s (handler s).state) : Grows s (s.sendCall remote fails handler).state := by
  obtain ⟨htx, n, hn⟩ := takeTxid_spec (s := s.newCall remote)
  unfold sendCall
  simp only [hn]
  split
  · exact grows_unsent remote n
  rename_i hfree
  have hnone : s.find (s.newCall remote).takeTxid.1 = none := by
    change ((s.calls.lookup _).map _) = none
    simpa [newCall] using hfree
  have hsent := (grows_sent remote n htx hnone).trans (hh _)
  have hupd : Grows s ((({ s.newCall remote with nextTxid := n } : RPCServer).register s.objs.length
      (s.newCall remote).takeTxid.1).updateState s.objs.length .sent handler).state :=
    andThen_cases hsent fun _ => hsent
  refine andThen_cases hupd fun _ => ?_
  split <;> exact hupd.schedule (Nat.le_refl _) 2000

/-- All that a handler can do. -/
theorem exec_grows (sc : Script) (s : RPCServer) : Grows s (exec sc s).state := by
  induction sc generalizing s with
  | done => exact Grows.refl s
  | throw => exact Grows.refl s
  | send remote fails onSent rest ihs ihr =>
    have hsend := sendCall_grows (s := s) remote fails ihs
    exact andThen_cases hsend fun _ => hsend.trans (ihr _)

/-! ## The invariant -/

/-- The calls in the map are those that wait, under their own transaction id; each call has ended at
most once; what was delivered matches; timeouts are late enough. -/
structure Inv (s : RPCServer) : Prop where
  waiting : ∀ c, (∃ txid, s.find txid = some c) ↔ (s.call c).state.isWaiting = true
  keyed : ∀ txid c, s.find txid = some c → (s.call c).txid = txid ∧ txid ≠ 0
  ended : ∀ c, s.trace.countP (fun n => n.call = c && n.state.isTerminal) =
    if (s.call c).state.isTerminal then 1 else 0
  origin : ∀ d ∈ s.delivered, d.1 < s.objs.length ∧ d.2.txid = (s.call d.1).txid ∧
    d.2.origin = (s.call d.1).remote
  late : ∀ n ∈ s.trace, n.state = .timeout → n.call < s.objs.length ∧
    (s.call n.call).sentTime + RPC_CALL_TIMEOUT_MAX ≤ n.time
  clock : ∀ c, (s.call c).state.isWaiting = true → (s.call c).sentTime ≤ s.now

theorem init_inv (now : Nat) (dht6 : Bool) (nextTxid : Int32) : Inv (init now dht6 nextTxid) where
  waiting c := by simp [init, find, call, CallState.isWaiting]
  keyed txid c h := by simp [init, find] at h
  ended c := by simp [init, call, CallState.isTerminal]
  origin d h := by simp [init] at h
  late n h := by simp [init] at h
  clock c h := by simp [init, call, CallState.isWaiting] at h

@[simp] theorem stalled_isWaiting : CallState.stalled.isWaiting = true := rfl

@[simp] theorem stalled_isTerminal : CallState.stalled.isTerminal = false := rfl

theorem isWaiting_ne_terminal (h : st.isWaiting = true) : st.isTerminal = false := by
  cases st <;> simp_all [CallState.isWaiting, CallState.isTerminal]

theorem isTerminal_ne_waiting (h : st.isTerminal = true) : st.isWaiting = false := by
  cases st <;> simp_all [CallState.isWaiting, CallState.isTerminal]

theorem lt_of_isWaiting (h : (s.call c).state.isWaiting = true) : c < s.objs.length := by
  by_contra hlt
  rw [call_of_le (Nat.not_lt.mp hlt)] at h
  simp [CallState.isWaiting] at h

theorem Inv.find_of_waiting (h : Inv s) (hw : (s.call c).state.isWaiting = true) :
    s.find (s.call c).txid = some c := by
  obtain ⟨txid, hf⟩ := (h.waiting c).mpr hw
  rwa [(h.keyed txid c hf).1]

theorem Inv.lt_of_find (h : Inv s) (hf : s.find txid = some c) : c < s.objs.length :=
  lt_of_isWaiting ((h.waiting c).mp ⟨txid, hf⟩)

/-- Only timers, the clock and the like differ. -/
structure SameCalls (s s' : RPCServer) : Prop where
  now : s.now ≤ s'.now
  length : s'.objs.length = s.objs.length
  call : ∀ c, ∃ t, s'.call c = { s.call c with timeoutTimer := t }
  find : ∀ txid, s'.find txid = s.find txid
  trace : s'.trace = s.trace
  delivered : s'.delivered = s.delivered

theorem SameCalls.inv (hs : SameCalls s s') (h : Inv s) : Inv s' := by
  have hstate : ∀ c, (s'.call c).state = (s.call c).state := fun c => by
    obtain ⟨t, ht⟩ := hs.call c
    rw [ht]
  have htxid : ∀ c, (s'.call c).txid = (s.call c).txid := fun c => by
    obtain ⟨t, ht⟩ := hs.call c
    rw [ht]
  refine ⟨fun c => ?_, fun txid c hf => ?_, fun c => ?_, fun d hd => ?_, fun n hn ht => ?_,
    fun c hw => ?_⟩
  · simp only [hs.find, hstate]
    exact h.waiting c
  · rw [hs.find] at hf
    rw [htxid]
    exact h.keyed txid c hf
  · rw [hs.trace, hstate]
    exact h.ended c
  · obtain ⟨t, ht⟩ := hs.call d.1
    rw [hs.length, ht]
    exact h.origin d (hs.delivered ▸ hd)
  · obtain ⟨t, htc⟩ := hs.call n.call
    rw [hs.length, htc]
    exact h.late n (hs.trace ▸ hn) ht
  · obtain ⟨t, htc⟩ := hs.call c
    rw [htc] at hw ⊢
    exact (h.clock c hw).trans hs.now

theorem sameCalls_schedule (delay : Nat) : SameCalls s (s.schedule c delay) where
  now := Nat.le_refl _
  length := length_schedule delay
  call c' := by
    obtain ⟨t, h, -⟩ := call_schedule (s := s) (c := c) delay c'
    exact ⟨t, h⟩
  find _ := rfl
  trace := rfl
  delivered := rfl

theorem SameCalls.refl (s : RPCServer) : SameCalls s s :=
  ⟨Nat.le_refl _, rfl, fun _ => ⟨_, rfl⟩, fun _ => rfl, rfl, rfl⟩

theorem sameCalls_clearJob (job : Nat) : SameCalls s (s.clearJob job) :=
  ⟨Nat.le_refl _, rfl, fun _ => ⟨_, rfl⟩, fun _ => rfl, rfl, rfl⟩

theorem sameCalls_cancelTimer : SameCalls s (s.cancelTimer c) := by
  unfold cancelTimer
  split
  · exact sameCalls_clearJob _
  · exact SameCalls.refl s

/-- A call that a handler makes has not ended. -/
theorem Grows.not_terminal (hg : Grows s s') {c : Nat} (hc : s.objs.length ≤ c) :
    (s'.call c).state.isTerminal = false := by
  by_cases hc' : c < s'.objs.length
  · rcases hg.new c hc hc' with ⟨h, -⟩ | h <;> simp [h, CallState.isTerminal]
  · simp [call_of_le (Nat.not_lt.mp hc'), CallState.isTerminal]

/-- The map of a handler has the calls it had and the calls just sent. -/
theorem Grows.waiting (hg : Grows s s') (h : Inv s) (c : Nat) :
    (∃ txid, s'.find txid = some c) ↔ (s'.call c).state.isWaiting = true := by
  by_cases hc : c < s.objs.length
  · rw [hg.old c hc, ← h.waiting c]
    refine exists_congr fun txid => ?_
    rw [hg.find]
    refine ⟨?_, .inl⟩
    rintro (h1 | ⟨h1, -⟩)
    · exact h1
    · omega
  · constructor
    · rintro ⟨txid, hf⟩
      rcases (hg.find txid c).mp hf with h1 | ⟨-, -, h3, -⟩
      · exact absurd (h.lt_of_find h1) hc
      · simp [h3, CallState.isWaiting]
    · intro hw
      have hc' := lt_of_isWaiting hw
      rcases hg.new c (Nat.not_lt.mp hc) hc' with ⟨h1, -⟩ | h1
      · exact ⟨_, (hg.find _ c).mpr (.inr ⟨Nat.not_lt.mp hc, hc', h1, rfl⟩)⟩
      · simp [h1, CallState.isWaiting] at hw

/-- No call ends in a handler. -/
theorem Grows.countP_ended (hg : Grows s s') (c : Nat) :
    s'.trace.countP (fun n => n.call = c && n.state.isTerminal) =
      s.trace.countP fun n => n.call = c && n.state.isTerminal := by
  obtain ⟨tr, htr, hsent⟩ := hg.trace
  have hzero : tr.countP (fun n => n.call = c && n.state.isTerminal) = 0 := by
    rw [List.countP_eq_zero]
    intro n hn
    simp [hsent n hn, CallState.isTerminal]
  rw [htr, List.countP_append, hzero, Nat.add_zero]

/-- A handler keeps the invariant. -/
theorem Grows.inv (hg : Grows s s') (h : Inv s) : Inv s' := by
  have hlen := hg.length
  refine ⟨hg.waiting h, fun txid c hf => ?_, fun c => ?_, fun d hd => ?_, fun n hn ht => ?_,
    fun c hw => ?_⟩
  · rcases (hg.find txid c).mp hf with h1 | ⟨h1, h2, h3, rfl⟩
    · rw [hg.old c (h.lt_of_find h1)]
      exact h.keyed txid c h1
    · rcases hg.new c h1 h2 with ⟨-, h4⟩ | h4
      · exact ⟨rfl, h4.1⟩
      · simp [h3] at h4
  · rw [hg.countP_ended, h.ended c]
    by_cases hc : c < s.objs.length
    · rw [hg.old c hc]
    · rw [call_of_le (Nat.not_lt.mp hc), hg.not_terminal (Nat.not_lt.mp hc)]
      rfl
  · obtain ⟨h1, h2⟩ := h.origin d (hg.delivered ▸ hd)
    rw [hg.old d.1 h1]
    exact ⟨by omega, h2⟩
  · obtain ⟨tr, htr, hsent⟩ := hg.trace
    rw [htr] at hn
    rcases List.mem_append.mp hn with hn | hn
    · obtain ⟨h1, h2⟩ := h.late n hn ht
      rw [hg.old n.call h1]
      exact ⟨by omega, h2⟩
    · rw [hsent n hn] at ht
      cases ht
  · rw [hg.now]
    by_cases hc : c < s.objs.length
    · rw [hg.old c hc] at hw ⊢
      exact h.clock c hw
    · rcases hg.new c (Nat.not_lt.mp hc) (lt_of_isWaiting hw) with ⟨-, -, h1⟩ | h1
      · exact h1.le
      · simp [h1, CallState.isWaiting] at hw

/-- A waiting call goes to the state `st`. It stays in the map if it waits there, and the other
calls stay in any case. -/
theorem Inv.entered (h : Inv s) (calls : Table (Prod.fst : Int32 × Nat → Int32))
    (hw : (s.call c).state.isWaiting = true)
    (st : CallState) (hlate : st = .timeout → (s.call c).sentTime + RPC_CALL_TIMEOUT_MAX ≤ s.now)
    (hfind : ∀ txid c', ({ s with calls := calls } : RPCServer).find txid = some c' ↔
      s.find txid = some c' ∧ (c' = c → st.isWaiting = true)) :
    Inv (({ s with calls := calls } : RPCServer).enter c st) := by
  have hc := lt_of_isWaiting hw
  have hcall : ∀ c', (({ s with calls := calls } : RPCServer).enter c st).call c' =
      if c' = c then { s.call c' with state := st } else s.call c' := by
    intro c'
    rw [call_enter]
    exact if_congr (and_iff_left hc) rfl rfl
  refine ⟨fun c' => ?_, fun txid c' hf => ?_, fun c' => ?_, fun d hd => ?_, fun n hn hn' => ?_,
    fun c' hw' => ?_⟩
  · simp only [find_enter, hfind, hcall]
    by_cases hc' : c' = c
    · subst hc'
      rw [if_pos rfl]
      constructor
      · rintro ⟨txid, -, hst⟩
        exact hst rfl
      · intro hst
        obtain ⟨txid, hf⟩ := (h.waiting c').mpr hw
        exact ⟨txid, hf, fun _ => hst⟩
    · simp only [hc', false_imp_iff, and_true, if_false]
      exact h.waiting c'
  · rw [hcall]
    have hf := ((hfind txid c').mp hf).1
    split <;> exact h.keyed txid c' hf
  · change (s.trace ++ [_]).countP _ = _
    rw [List.countP_append, h.ended c', hcall]
    by_cases hc' : c' = c
    · subst hc'
      simp [isWaiting_ne_terminal hw]
    · simp [hc', Ne.symm hc']
  · obtain ⟨h1, h2⟩ := h.origin d hd
    refine ⟨by simpa using h1, ?_⟩
    rw [hcall]
    split <;> exact h2
  · change n ∈ s.trace ++ [_] at hn
    rcases List.mem_append.mp hn with hn | hn
    · obtain ⟨h1, h2⟩ := h.late n hn hn'
      refine ⟨by simpa using h1, ?_⟩
      rw [hcall]
      split <;> exact h2
    · obtain rfl := List.mem_singleton.mp hn
      refine ⟨by simpa using hc, ?_⟩
      rw [hcall, if_pos rfl]
      exact hlate hn'
  · rw [hcall] at hw' ⊢
    by_cases hc' : c' = c
    · subst hc'
      rw [if_pos rfl]
      exact h.clock c' hw
    · rw [if_neg hc'] at hw' ⊢
      exact h.clock c' hw'

/-- A waiting call that is stalled keeps waiting. -/
theorem Inv.stalled (h : Inv s) (hw : (s.call c).state.isWaiting = true) :
    Inv (s.enter c .stalled) := by
  refine h.entered s.calls hw .stalled (fun hst => ?_) fun txid c' => ?_
  · cases hst
  · exact (and_iff_left fun _ => rfl).symm

/-- A waiting call that is taken out of the map and ends. -/
theorem Inv.terminal (h : Inv s) (hw : (s.call c).state.isWaiting = true) (st : CallState)
    (ht : st.isTerminal = true)
    (hlate : st = .timeout → (s.call c).sentTime + RPC_CALL_TIMEOUT_MAX ≤ s.now) :
    Inv ((s.timeoutHandler c).enter c st) := by
  refine h.entered _ hw st hlate fun txid c' => ?_
  show (s.timeoutHandler c).find txid = some c' ↔ _
  rw [find_timeoutHandler, isTerminal_ne_waiting ht]
  by_cases htx : txid = (s.call c).txid
  · rw [if_pos htx, htx, h.find_of_waiting hw]
    constructor
    · intro h
      cases h
    · rintro ⟨h1, h2⟩
      exact absurd (h2 (Option.some.inj h1).symm) Bool.false_ne_true
  · rw [if_neg htx]
    refine ⟨fun hf => ⟨hf, ?_⟩, And.left⟩
    rintro rfl
    exact absurd (h.keyed txid c' hf).1.symm htx

/-! ## Steps -/

/-- A call that has ended stays as it ended. -/
def Stays (s s' : RPCServer) : Prop :=
  ∀ c, (s.call c).state.isTerminal = true → (s'.call c).state = (s.call c).state

theorem Stays.refl (s : RPCServer) : Stays s s := fun _ _ => rfl

theorem Stays.trans (h : Stays s s') (h' : Stays s' s'') : Stays s s'' := by
  intro c hc
  have heq := h c hc
  rw [h' c (heq ▸ hc), heq]

theorem Grows.stays (hg : Grows s s') : Stays s s' := by
  intro c hc
  have hlt : c < s.objs.length := by
    by_contra hlt
    rw [call_of_le (Nat.not_lt.mp hlt)] at hc
    simp [CallState.isTerminal] at hc
  rw [hg.old c hlt]

theorem SameCalls.stays (hs : SameCalls s s') : Stays s s' := by
  intro c _
  obtain ⟨t, ht⟩ := hs.call c
  rw [ht]

theorem stays_enter (hw : (s.call c).state.isWaiting = true) : Stays s (s.enter c st) := by
  intro c' hc'
  rw [call_enter]
  split
  · rename_i hc
    rw [hc.1, isWaiting_ne_terminal hw] at hc'
    cases hc'
  · rfl

/-- The invariant after a step, and what the step leaves alone. -/
def Keeps (s s' : RPCServer) : Prop := Inv s' ∧ Stays s s'

theorem Keeps.trans (h : Keeps s s') (h' : Keeps s' s'') : Keeps s s'' := ⟨h'.1, h.2.trans h'.2⟩

theorem SameCalls.keeps (hs : SameCalls s s') (h : Inv s) : Keeps s s' := ⟨hs.inv h, hs.stays⟩

theorem Grows.keeps (hg : Grows s s') (h : Inv s) : Keeps s s' := ⟨hg.inv h, hg.stays⟩

/-- The call `c` waits, and no time is left for it. -/
def IsOverdue (self : RPCServer) (c : Nat) : Prop :=
  (self.call c).state.isWaiting = true ∧
    ¬ Int32.ofNat RPC_CALL_TIMEOUT_MAX - Int32.ofInt ((self.now : Int) - (self.call c).sentTime) > 0

/-- No time is left only after `RPC_CALL_TIMEOUT_MAX`, for all that `elapsed` is an `int`. -/
theorem Inv.late_of_isOverdue (h : Inv s) (ho : s.IsOverdue c) :
    (s.call c).sentTime + RPC_CALL_TIMEOUT_MAX ≤ s.now := by
  obtain ⟨hw, ho⟩ := ho
  have hle := h.clock c hw
  by_contra hlt
  refine ho (Int32.lt_iff_toInt_lt.mpr ?_)
  have hmax : RPC_CALL_TIMEOUT_MAX = 10000 := rfl
  rw [hmax] at hlt ⊢
  have helapsed : (Int32.ofInt ((s.now : Int) - (s.call c).sentTime)).toInt =
      (s.now : Int) - (s.call c).sentTime := by
    rw [Int32.toInt_ofInt, show Int32.size = 2 ^ 32 from rfl,
      Int.bmod_eq_of_le (by omega) (by omega)]
  have hten : (Int32.ofNat 10000).toInt = 10000 := rfl
  have hzero : (0 : Int32).toInt = 0 := rfl
  rw [Int32.toInt_sub, helapsed, hten, hzero, Int.bmod_eq_of_le (by omega) (by omega)]
  omega

theorem updateState_state (hst : st ≠ .timeout) (handler : RPCServer → Res) :
    (s.updateState c st handler).state = (handler (s.enter c st)).state := by
  simp only [updateState, hst, if_false, Res.andThen]
  split <;> rfl

/-- A handler, seen after the timeout handler instead of before it. -/
theorem Grows.timeoutHandler (hg : Grows s s') (hf : s.find (s.call c).txid = some c)
    (hc : c < s.objs.length) : Grows (s.timeoutHandler c) (s'.timeoutHandler c) := by
  refine ⟨hg.now, hg.length, hg.old, fun txid c' => ?_, hg.new, hg.trace, hg.delivered⟩
  rw [find_timeoutHandler, find_timeoutHandler, hg.old c hc]
  by_cases htx : txid = (s.call c).txid
  · rw [if_pos htx, if_pos htx, htx]
    constructor
    · intro h
      cases h
    rintro (h | ⟨h1, h2⟩)
    · cases h
    · -- a new call cannot have the transaction id of one that is in the map
      have hnew := (hg.find _ c').mpr (.inr ⟨h1, h2⟩)
      rw [(hg.find _ c).mpr (.inl hf)] at hnew
      have hle : s.objs.length ≤ c' := h1
      obtain rfl := Option.some.inj hnew
      omega
  · rw [if_neg htx, if_neg htx]
    exact hg.find txid c'

theorem timeoutHandler_enter : (s.enter c st).timeoutHandler c =
    (s.timeoutHandler c).enter c st := by
  have htx : ((s.enter c st).call c).txid = (s.call c).txid := by
    rw [call_enter]
    split <;> rfl
  unfold RPCServer.timeoutHandler
  rw [htx]
  rfl

/-- A waiting call that is stalled, with its handler. -/
theorem stalled_keeps (h : Inv s) (hw : (s.call c).state.isWaiting = true) (handler : Script) :
    Keeps s (s.updateState c .stalled (exec handler)).state := by
  rw [updateState_state (by decide)]
  exact Keeps.trans ⟨h.stalled hw, stays_enter hw⟩ ((exec_grows handler _).keeps (h.stalled hw))

theorem stall_keeps (h : Inv s) (c : Nat) (handler : Script) :
    Keeps s (s.stall c (exec handler)).state := by
  unfold stall
  split
  · rename_i hst
    exact stalled_keeps h (by simp [hst, CallState.isWaiting]) handler
  · exact ⟨h, Stays.refl s⟩

/-- A call that times out is out of the map after its handler, if that does not throw. -/
theorem timeout_keeps (h : Inv s) (ho : s.IsOverdue c) (handler : Script)
    (hok : (exec handler (s.enter c .timeout)).threw = false) :
    Keeps s (s.updateState c .timeout (exec handler)).state := by
  have hw := ho.1
  have hc := lt_of_isWaiting hw
  have hterm := h.terminal hw .timeout rfl fun _ => h.late_of_isOverdue ho
  have hfind : (s.enter c .timeout).find ((s.enter c .timeout).call c).txid = some c := by
    rw [find_enter, call_enter, if_pos ⟨rfl, hc⟩]
    exact h.find_of_waiting hw
  have hgrows := (exec_grows handler (s.enter c .timeout)).timeoutHandler hfind (by simpa using hc)
  rw [timeoutHandler_enter] at hgrows
  have heq : (s.updateState c .timeout (exec handler)).state =
      (exec handler (s.enter c .timeout)).state.timeoutHandler c := by
    simp [updateState, Res.andThen, hok, Res.ok]
  rw [heq]
  have hstays : Stays s ((s.timeoutHandler c).enter c .timeout) :=
    stays_enter (s := s.timeoutHandler c) hw
  exact Keeps.trans ⟨hterm, hstays⟩ (hgrows.keeps hterm)

theorem checkTimeout_keeps (h : Inv s) (c : Nat) (handler : Script)
    (hok : s.IsOverdue c → (exec handler (s.enter c .timeout)).threw = false) :
    Keeps s (s.checkTimeout c (exec handler)).state := by
  unfold checkTimeout
  split
  · rename_i hw
    simp only
    split
    · have hstall := stalled_keeps h hw handler
      exact andThen_cases hstall fun _ => hstall.trans ((sameCalls_schedule _).keeps hstall.1)
    · rename_i hleft
      exact timeout_keeps h ⟨hw, hleft⟩ handler (hok ⟨hw, hleft⟩)
  · exact ⟨h, Stays.refl s⟩

/-- A message is delivered to a call that it matches. -/
theorem Inv.deliver (h : Inv s) (msg : Packet) (hc : c < s.objs.length)
    (htx : msg.txid = (s.call c).txid) (ho : msg.origin = (s.call c).remote) :
    Inv { s with delivered := s.delivered ++ [(c, msg)] } where
  waiting := h.waiting
  keyed := h.keyed
  ended := h.ended
  origin d hd := by
    rcases List.mem_append.mp hd with hd | hd
    · exact h.origin d hd
    · obtain rfl := List.mem_singleton.mp hd
      exact ⟨hc, htx, ho⟩
  late := h.late
  clock := h.clock

/-- The response path: the call is out of the map before its handler runs. -/
theorem responsed_keeps (h : Inv s) (hw : (s.call c).state.isWaiting = true) {msg : Packet}
    (hreq : msg.type ≠ .request) (htx : msg.txid = (s.call c).txid)
    (ho : msg.origin = (s.call c).remote) (handler : Script) :
    Keeps s ((s.timeoutHandler c).responsed c msg (exec handler)).state := by
  have hcancel := (sameCalls_cancelTimer (s := s) (c := c)).keeps h
  obtain ⟨t, ht⟩ := (sameCalls_cancelTimer (s := s) (c := c)).call c
  have hc : c < (s.cancelTimer c).objs.length := by
    rw [sameCalls_cancelTimer.length]
    exact lt_of_isWaiting hw
  have hdel := hcancel.1.deliver msg hc (by rw [ht, htx]) (by rw [ht, ho])
  have hswap : ({ (s.timeoutHandler c).cancelTimer c with
      delivered := (s.timeoutHandler c).delivered ++ [(c, msg)] } : RPCServer) =
      RPCServer.timeoutHandler { s.cancelTimer c with delivered := (s.cancelTimer c).delivered ++
        [(c, msg)] } c := by
    simp only [cancelTimer, call_timeoutHandler]
    cases hct : (s.call c).timeoutTimer <;> rfl
  have hw' : ((s.cancelTimer c).call c).state.isWaiting = true := by
    rw [ht]
    exact hw
  have hend : ∀ st, st.isTerminal = true → st ≠ .timeout →
      Keeps s (RPCServer.updateState (RPCServer.timeoutHandler
        { s.cancelTimer c with delivered := (s.cancelTimer c).delivered ++ [(c, msg)] } c) c st
        (exec handler)).state := by
    intro st hst hne
    rw [updateState_state hne]
    have hterm := hdel.terminal (c := c) hw' st hst fun heq => absurd heq hne
    refine Keeps.trans ⟨hterm, hcancel.2.trans ?_⟩ ((exec_grows handler _).keeps hterm)
    exact stays_enter (s := RPCServer.timeoutHandler
      { s.cancelTimer c with delivered := (s.cancelTimer c).delivered ++ [(c, msg)] } c) hw'
  unfold responsed
  simp only [hswap]
  cases hty : msg.type with
  | request => exact absurd hty hreq
  | response => exact hend .responded rfl (by decide)
  | err => exact hend .err rfl (by decide)

theorem matchCall_keeps (h : Inv s) (msg : Packet) (o : Others) :
    Keeps s (s.matchCall msg o).state := by
  have hself : Keeps s s := ⟨h, Stays.refl s⟩
  unfold matchCall
  split
  · exact (exec_grows _ s).keeps h
  rename_i hreq
  split
  · rename_i txid c hl
    have hkey : txid = msg.txid := Table.lookup_key hl
    have hf : s.find msg.txid = some c := by simp [find, hl]
    have hw := (h.waiting c).mp ⟨_, hf⟩
    have htx := (h.keyed _ c hf).1
    split
    · rename_i ho
      have hresp := responsed_keeps h hw hreq htx.symm ho.symm o.handler
      have herase : ({ s with calls := s.calls.deleteWhere fun r => r.1 = msg.txid } : RPCServer) =
          s.timeoutHandler c := by
        simp only [RPCServer.timeoutHandler, htx]
      simp only [herase]
      exact andThen_cases hresp fun _ => hresp.trans ((exec_grows o.onMessage _).keeps hresp.1)
    · split
      · exact hself
      · exact stall_keeps h c o.handler
  · split
    · split <;> exact hself
    · split
      · exact (exec_grows _ s).keeps h
      · exact hself

/-- The step notifies a handler of a timeout, and the handler throws. -/
def TimeoutThrows (self : RPCServer) : Event → Prop
  | .fire job handler => ∃ j, self.timers[job]? = some j ∧ j.active = true ∧ j.due ≤ self.now ∧
      self.rx = true ∧ self.IsOverdue j.call ∧
      (exec handler ((self.clearJob job).enter j.call .timeout)).threw = true
  | _ => False

theorem runJob_keeps (h : Inv s) (hrx : s.rx = true) (job : Nat) (handler : Script)
    (hok : ¬ s.TimeoutThrows (.fire job handler)) : Keeps s (s.runJob job handler).state := by
  have hself : Keeps s s := ⟨h, Stays.refl s⟩
  unfold runJob
  split
  · rename_i j hj
    split
    · rename_i hdue
      simp only [Bool.and_eq_true, decide_eq_true_eq] at hdue
      have hsame := sameCalls_clearJob (s := s) job
      refine (hsame.keeps h).trans (checkTimeout_keeps (hsame.inv h) j.call handler fun ho => ?_)
      by_contra hthrew
      exact hok ⟨j, hj, hdue.1, hdue.2, hrx, ho, by simpa using hthrew⟩
    · exact hself
  · exact hself

/-- An exception on the receive loop leaves the calls as they are. -/
theorem onLoop_keeps {f : RPCServer → Res} (h : Inv s) (hf : s.rx = true → Keeps s (f s).state) :
    Keeps s (s.onLoop f) := by
  unfold onLoop
  split
  · rename_i hrx
    have hsame : SameCalls (f s).state { (f s).state with rx := !(f s).threw } :=
      ⟨Nat.le_refl _, rfl, fun c => ⟨_, rfl⟩, fun _ => rfl, rfl, rfl⟩
    exact (hf hrx).trans (hsame.keeps (hf hrx).1)
  · exact ⟨h, Stays.refl s⟩

/-- One step keeps the invariant, unless a handler throws when it is notified of a timeout. -/
theorem step_keeps (h : Inv s) (e : Event) (hok : ¬ s.TimeoutThrows e) : Keeps s (s.step e) := by
  cases e with
  | sendCall remote fails handler =>
    exact (sendCall_grows remote fails fun s => exec_grows handler s).keeps h
  | packet msg o =>
    refine onLoop_keeps (f := (·.handlePacket msg o)) h fun _ => ?_
    unfold handlePacket
    split
    · exact ⟨h, Stays.refl s⟩
    · exact matchCall_keeps h msg o
  | fire job handler =>
    exact onLoop_keeps (f := (·.runJob job handler)) h fun hrx => runJob_keeps h hrx job handler hok
  | advance millis =>
    have hsame : SameCalls s { s with now := s.now + millis } :=
      ⟨Nat.le_add_right _ _, rfl, fun c => ⟨_, rfl⟩, fun _ => rfl, rfl, rfl⟩
    exact hsame.keeps h

/-- A run keeps the invariant, unless a handler throws when it is notified of a timeout. -/
theorem run_keeps (h : Inv s) (events : List Event)
    (hok : ∀ pre e post, events = pre ++ e :: post → ¬ (s.run pre).TimeoutThrows e) :
    Keeps s (s.run events) := by
  induction events generalizing s with
  | nil => exact ⟨h, Stays.refl s⟩
  | cons e rest ih =>
    have hstep := step_keeps h e (hok [] e rest rfl)
    exact hstep.trans (ih hstep.1 fun pre e' post heq => hok (e :: pre) e' post (by simp [heq]))

/-! ## The life of a call -/

/-- What holds of the calls between two steps. -/
structure Lifecycle (s : RPCServer) : Prop where
  /-- A call is in the map exactly while it waits for its response. -/
  outstanding : ∀ c, (∃ txid, s.find txid = some c) ↔
    (s.call c).state = .sent ∨ (s.call c).state = .stalled
  /-- A call is notified of at most one end, at most once. -/
  once : ∀ c, s.trace.countP (fun n => n.call = c && n.state.isTerminal) ≤ 1
  /-- A call gets only messages with its transaction id, from the address it was sent to. -/
  matched : ∀ d ∈ s.delivered, d.2.txid = (s.call d.1).txid ∧ d.2.origin = (s.call d.1).remote
  /-- A call times out only after the time allowed for it. -/
  late : ∀ n ∈ s.trace, n.state = .timeout →
    (s.call n.call).sentTime + RPC_CALL_TIMEOUT_MAX ≤ n.time
  /-- Calls in the map have different transaction ids. -/
  distinct : ∀ c c' txid txid', s.find txid = some c → s.find txid' = some c' →
    (s.call c).txid = (s.call c').txid → c = c'
  /-- Calls in the map have a transaction id other than 0. -/
  nonzero : ∀ c txid, s.find txid = some c → (s.call c).txid ≠ 0

theorem Inv.lifecycle (h : Inv s) : Lifecycle s where
  outstanding c := by simpa [CallState.isWaiting] using h.waiting c
  once c := by
    rw [h.ended c]
    split <;> omega
  matched d hd := (h.origin d hd).2
  late n hn ht := (h.late n hn ht).2
  distinct c c' txid txid' hf hf' heq := by
    rw [(h.keyed _ _ hf).1, (h.keyed _ _ hf').1] at heq
    subst heq
    exact Option.some.inj (hf.symm.trans hf')
  nonzero c txid hf := by
    rw [(h.keyed _ _ hf).1]
    exact (h.keyed _ _ hf).2

/-- An exception of the handler ends the timeout path before the call is taken out of the map. -/
theorem checkTimeout_of_threw (ho : s.IsOverdue c) (handler : RPCServer → Res)
    (ht : (handler (s.enter c .timeout)).threw = true) :
    s.checkTimeout c handler = handler (s.enter c .timeout) := by
  unfold checkTimeout
  simp only
  rw [if_pos ho.1, if_neg ho.2]
  unfold updateState Res.andThen
  rw [if_pos ht]

/-- The call that timed out is still in the map. -/
theorem not_lifecycle_of_timeoutThrows (h : Lifecycle s) {e : Event} (ht : s.TimeoutThrows e) :
    ¬ Lifecycle (s.step e) := by
  cases e with
  | sendCall | packet | advance => exact ht.elim
  | fire job handler =>
    obtain ⟨j, hj, hactive, hdue, hrx, ho, hthrew⟩ := ht
    have hw : (s.call j.call).state.isWaiting = true := ho.1
    have hc : j.call < (s.clearJob job).objs.length := lt_of_isWaiting hw
    have hg := exec_grows handler ((s.clearJob job).enter j.call .timeout)
    have hrun : s.runJob job handler = exec handler ((s.clearJob job).enter j.call .timeout) := by
      unfold runJob
      simp only [hj]
      rw [if_pos (by simp [hactive, hdue])]
      exact checkTimeout_of_threw (s := s.clearJob job) ho (exec handler) hthrew
    have hstep : s.step (.fire job handler) =
        { (s.runJob job handler).state with rx := false } := by
      simp only [step, onLoop, hrx, if_true]
      rw [hrun, hthrew]
      rfl
    obtain ⟨txid, hf⟩ := (h.outstanding j.call).mpr (by simpa [CallState.isWaiting] using hw)
    have hfind : (s.step (.fire job handler)).find txid = some j.call := by
      rw [hstep, hrun]
      exact (hg.find txid j.call).mpr (.inl hf)
    have hstate : ((s.step (.fire job handler)).call j.call).state = .timeout := by
      rw [hstep, hrun]
      change ((exec handler ((s.clearJob job).enter j.call .timeout)).state.call j.call).state = _
      rw [hg.old _ (by simpa using hc), call_enter, if_pos ⟨rfl, hc⟩]
    intro h'
    have hout := (h'.outstanding j.call).mp ⟨txid, hfind⟩
    rw [hstate] at hout
    simp at hout

theorem run_append (pre post : List Event) : s.run (pre ++ post) = (s.run pre).run post :=
  List.foldl_append

/-- All states of a run are right, and calls that have ended stay so, exactly if no handler throws
when it is notified of a timeout. -/
theorem run_lifecycle_iff (now : Nat) (dht6 : Bool) (nextTxid : Int32) (events : List Event) :
    (∀ pre, pre <+: events → Lifecycle ((init now dht6 nextTxid).run pre) ∧
      Stays ((init now dht6 nextTxid).run pre) ((init now dht6 nextTxid).run events)) ↔
    ∀ pre e post, events = pre ++ e :: post →
      ¬ ((init now dht6 nextTxid).run pre).TimeoutThrows e := by
  have hinit := init_inv now dht6 nextTxid
  constructor
  · rintro h pre e post rfl ht
    have hpre := (h pre (List.prefix_append _ _)).1
    have hstep := (h (pre ++ [e]) ⟨post, by simp⟩).1
    rw [run_append] at hstep
    exact not_lifecycle_of_timeoutThrows hpre ht hstep
  · rintro h pre ⟨post, rfl⟩
    have hpre := run_keeps hinit pre fun p e q heq => h p e (q ++ post) (by simp [heq])
    have hpost := run_keeps hpre.1 post fun p e q heq => by
      rw [← run_append]
      exact h (pre ++ p) e q (by simp [heq])
    rw [run_append]
    exact ⟨hpre.1.lifecycle, hpost.2⟩

/-- A call is sent and never answered. At its timeout the handler throws. -/
def throwingTimeout : List Event :=
  [.sendCall (.inet ⟨[10, 0, 0, 1], rfl⟩ 39001) false .done, .advance 2000, .fire 0 .done,
    .advance 8000, .fire 1 .throw]

theorem not_lifecycle_throwingTimeout : ¬ Lifecycle ((init 0 false 1).run throwingTimeout) := by
  intro h
  have hfind : ((init 0 false 1).run throwingTimeout).find 1 = some 0 := by decide +kernel
  have hstate : (((init 0 false 1).run throwingTimeout).call 0).state = .timeout := by
    decide +kernel
  have hout := (h.outstanding 0).mp ⟨1, hfind⟩
  rw [hstate] at hout
  simp at hout

end RPCServer

end Boson
