import Boson.Node.Integrity
import Boson.TokenManager.Window

/-!
# A value from its store to its find

A node hands out a token with its answer to a lookup, takes a value that comes back with the token,
and gives the value to those who ask for it. Between these three requests the node goes on with
everything else: other requests, the operations of its user, its maintenance.

* `run_tokenManager`: whatever happens, the token manager has a sequence of calls, at the times of
  the events.
* `step_keeps`: a row of a value that is young enough stays, and is only replaced by a version that
  is not older.
* `store_then_find`: a valid value that is sent with its token within `TOKEN_TIMEOUT` is
  acknowledged, and for `MAX_VALUE_AGE` the node answers with this value or with a later version of
  it.
-/

namespace Boson

open TokenManager (Later Outdated times)

namespace InUse

/-- In a run the clock does not go back. -/
def Forward (C : Crypto) (R : RandomOrder) (s : InUse) : List (StorageEvent C) → Prop
  | [] => True
  | e :: events => s.now ≤ (s.step C R e).now ∧ Forward C R (s.step C R e) events

variable {C : Crypto} {R : RandomOrder} {s : InUse}

theorem forward_append {events later : List (StorageEvent C)} :
    s.Forward C R (events ++ later) ↔
      s.Forward C R events ∧ (s.run C R events).Forward C R later := by
  induction events generalizing s with
  | nil => exact (and_iff_right trivial).symm
  | cons e events ih =>
    change _ ∧ (s.step C R e).Forward C R (events ++ later) ↔ _
    rw [ih, ← and_assoc]
    rfl

theorem Forward.le {events : List (StorageEvent C)} (h : s.Forward C R events) : s.now ≤
    (s.run C R events).now := by
  induction events generalizing s with
  | nil => exact le_rfl
  | cons e events ih => exact h.1.trans (ih h.2)

end InUse

/-! ## The token manager of a node in use -/

namespace Node

variable {C : Crypto} {R : RandomOrder} {self after : Node} {type : Network} {msg : Message}

/-- A handler calls the token manager at most once. -/
theorem onRequest_tokenManager (h : self.onRequest C R type msg = .ok after) :
    after.tokenManager = self.tokenManager ∨
      after.tokenManager = self.tokenManager.updateTokenTimestamps self.now := by
  unfold onRequest at h
  cases hc : msg.content with
  | findNodeRequest q =>
    simp only [hc] at h
    obtain ⟨r, -, h⟩ := FoldM.bind_eq_ok_iff.mp h
    split_ifs at h
    · cases h
      exact .inr rfl
    · cases h
      exact .inl rfl
  | findValueRequest q seq =>
    simp only [hc] at h
    obtain ⟨value, -, h⟩ := FoldM.bind_eq_ok_iff.mp h
    split at h
    · cases h
      exact .inr rfl
    · obtain ⟨r, -, h⟩ := FoldM.bind_eq_ok_iff.mp h
      cases h
      exact .inr rfl
  | findPeerRequest q =>
    simp only [hc] at h
    obtain ⟨peers, -, h⟩ := FoldM.bind_eq_ok_iff.mp h
    split_ifs at h
    · cases h
      exact .inr rfl
    · obtain ⟨r, -, h⟩ := FoldM.bind_eq_ok_iff.mp h
      cases h
      exact .inr rfl
  | storeValueRequest q =>
    simp only [hc] at h
    obtain ⟨value, -, h⟩ := FoldM.bind_eq_ok_iff.mp h
    dsimp only [verifyToken] at h
    split_ifs at h
    · cases h
      exact .inr rfl
    · obtain ⟨_, -, h⟩ := FoldM.bind_eq_ok_iff.mp h
      cases h
      exact .inr rfl
    · cases h
      exact .inr rfl
  | announcePeerRequest q =>
    simp only [hc] at h
    obtain ⟨bogon, -, h⟩ := FoldM.bind_eq_ok_iff.mp h
    dsimp only [verifyToken] at h
    split_ifs at h
    · cases h
      exact .inl rfl
    · cases h
      exact .inr rfl
    · obtain ⟨peer, -, h⟩ := FoldM.bind_eq_ok_iff.mp h
      cases h
      exact .inr rfl
  | _ =>
    simp only [hc] at h
    cases h
    exact .inl rfl

theorem serve_tokenManager (h : self.serve C R msg = .ok after) :
    after.tokenManager = self.tokenManager ∨
      after.tokenManager = self.tokenManager.updateTokenTimestamps self.now := by
  obtain ⟨sent, heq⟩ := checkTxid_cases self msg
  unfold serve at h
  rw [heq] at h
  split at h
  · cases h
  · split_ifs at h
    · cases h
      exact .inl rfl
    · have hmid := onRequest_tokenManager h
      exact hmid

end Node

namespace InUse

variable {C : Crypto} {R : RandomOrder} {s : InUse}

theorem step_tokenManager (s : InUse) (e : StorageEvent C) :
    (s.step C R e).node.tokenManager = s.node.tokenManager ∨
      ∃ call, (s.step C R e).node.tokenManager = s.node.tokenManager.call C s.node.now call := by
  cases e with
  | request msg =>
    change (s.request C R msg).node.tokenManager = _ ∨
      ∃ call, (s.request C R msg).node.tokenManager = _
    unfold request
    split_ifs
    · exact .inl rfl
    · split
      · next node hok =>
        refine (Node.serve_tokenManager hok).imp id fun h =>
          ⟨.generate msg.id msg.origin msg.id, ?_⟩
        rw [TokenManager.call_eq]
        exact h
      · exact .inl rfl
  | findValue id option =>
    refine .inl ?_
    change (s.findValue id option).node.tokenManager = _
    unfold findValue
    split <;> rfl
  | foundValue op found =>
    refine .inl ?_
    change (s.foundValue C op found).node.tokenManager = _
    unfold foundValue
    split
    · rfl
    · dsimp only
      split
      · split_ifs <;> rfl
      · rfl
  | storeValue value persistent =>
    refine .inl ?_
    change (s.storeValue C value persistent).node.tokenManager = _
    unfold storeValue
    split_ifs <;> rfl
  | findPeer id expected option =>
    refine .inl ?_
    change (s.findPeer C R id expected option).node.tokenManager = _
    unfold findPeer
    split
    · rfl
    · dsimp only
      split_ifs <;> rfl
  | foundPeers op lookup events _ =>
    refine .inl ?_
    change (s.foundPeers C op lookup events).node.tokenManager = _
    unfold foundPeers
    split <;> rfl
  | announcePeer peer persistent _ =>
    refine .inl ?_
    change (s.announcePeer C peer persistent).node.tokenManager = _
    unfold announcePeer
    split_ifs <;> rfl
  | _ => exact .inl rfl

/-- Whatever happens, the token manager has a sequence of calls, at times from the start of the run
to its end. -/
theorem run_tokenManager {events : List (StorageEvent C)} (h : s.Forward C R events)
    (hfits : (s.run C R events).now < 2 ^ 64) :
    ∃ calls, (s.run C R events).node.tokenManager = s.node.tokenManager.run C calls ∧
      (s.now :: (times calls ++ [(s.run C R events).now])).Pairwise (· ≤ ·) := by
  induction events generalizing s with
  | nil => exact ⟨[], rfl, by simp [times, run]⟩
  | cons e events ih =>
    have hend : s.now ≤ (s.run C R (e :: events)).now := h.le
    obtain ⟨hle, hrest⟩ := h
    obtain ⟨calls, hrun, hclock⟩ := ih hrest hfits
    obtain ⟨hfirst, hclock⟩ := List.pairwise_cons.mp hclock
    have hstart : (s.now :: (times calls ++ [(s.run C R (e :: events)).now])).Pairwise (· ≤ ·) :=
      List.pairwise_cons.mpr ⟨fun t ht => hle.trans (hfirst t ht), hclock⟩
    obtain hstep | ⟨call, hstep⟩ := step_tokenManager (R := R) s e
    · refine ⟨calls, ?_, hstart⟩
      rw [← hstep]
      exact hrun
    · have htime : s.node.now.toNat = s.now := UInt64.toNat_ofNat_of_lt' (hend.trans_lt hfits)
      refine ⟨(s.node.now, call) :: calls, ?_, ?_⟩
      · change _ = (s.node.tokenManager.call C s.node.now call).run C calls
        rw [← hstep]
        exact hrun
      · change (s.now :: s.node.now.toNat :: (times calls ++ _)).Pairwise (· ≤ ·)
        rw [htime]
        refine List.pairwise_cons.mpr ⟨fun t ht => ?_, hstart⟩
        obtain rfl | ht := List.mem_cons.mp ht
        · exact le_rfl
        · exact (List.pairwise_cons.mp hstart).1 t ht

section Token

variable {events : List (StorageEvent C)}

theorem later_run (h : s.Forward C R events) (hfits : (s.run C R events).now < 2 ^ 64)
    (hstamp : s.node.tokenManager.timestamp.toNat ≤ s.now) :
    ∃ calls, (s.run C R events).node.tokenManager = s.node.tokenManager.run C calls ∧
      s.node.tokenManager.Later (times calls ++ [(s.run C R events).now]) ∧
        ∀ t ∈ times calls, s.now ≤ t := by
  obtain ⟨calls, hrun, hsorted⟩ := run_tokenManager h hfits
  obtain ⟨hfirst, hsorted⟩ := List.pairwise_cons.mp hsorted
  exact ⟨calls, hrun, List.pairwise_cons.mpr ⟨fun t ht => hstamp.trans (hfirst t ht), hsorted⟩,
    fun t ht => hfirst t (List.mem_append_left _ ht)⟩

/-- The stamp of the token manager is not after the clock. -/
theorem run_stamp_le (h : s.Forward C R events) (hfits : (s.run C R events).now < 2 ^ 64)
    (hstamp : s.node.tokenManager.timestamp.toNat ≤ s.now) :
    (s.run C R events).node.tokenManager.timestamp.toNat ≤ (s.run C R events).now := by
  obtain ⟨calls, hrun, hlater, -⟩ := later_run h hfits hstamp
  rw [hrun]
  exact (List.pairwise_cons.mp (hlater.run (C := C))).1 _ (List.mem_singleton_self _)

/-- The token of the current stamp is taken for `TOKEN_TIMEOUT`. -/
theorem run_takesToken (h : s.Forward C R events) (hfits : (s.run C R events).now < 2 ^ 64)
    (hstamp : s.node.tokenManager.timestamp.toNat ≤ s.now)
    (hwindow : (s.run C R events).now ≤ s.now + TOKEN_TIMEOUT.toNat) (msg : Message) (target : Id) :
    Node.TakesToken C (s.run C R events).node msg
      (s.node.tokenManager.tokenAt C msg.id msg.origin target
        s.node.tokenManager.timestamp) target := by
  obtain ⟨calls, hrun, hlater, hafter⟩ := later_run h hfits hstamp
  have htime : (s.run C R events).node.now.toNat = (s.run C R events).now :=
    UInt64.toNat_ofNat_of_lt' hfits
  rw [← htime] at hlater
  rw [Node.TakesToken, hrun]
  refine TokenManager.accepts_of_holds ((TokenManager.holds_iff C hlater).mpr ?_)
  -- a call since then is too young to be rotated away as well
  rintro ⟨t, ht, -, hsoon⟩
  have := hafter t ht
  omega

end Token

end InUse

/-! ## The row of a value -/

theorem Value.isValid_of_immutable {C : Crypto} {v : Value} (hdata : v.data ≠ [])
    (h : v.isMutable = false) :
    v.isValid C = true := by
  have hkey : v.publicKey = none := by simpa [Value.isMutable] using h
  simp [Value.isValid, hdata, hkey]

/-- A version of a value that may take its place: it has the same id and is valid, and where the
value has an owner it is the owner's, and not older. -/
structure Value.Supersedes (C : Crypto) (w v : Value) : Prop where
  getId : w.getId C = v.getId C
  isValid : w.isValid C = true
  newer : v.isMutable = true → w.isMutable = true ∧ v.sequenceNumber ≤ w.sequenceNumber

theorem Value.Supersedes.refl {C : Crypto} {v : Value} (h : v.isValid C = true) :
    v.Supersedes C v :=
  ⟨rfl, h, fun hm => ⟨hm, Int32.le_refl _⟩⟩

namespace ValueTable

variable {C : Crypto} {T : ValueTable} {v : Value} {now t : Nat}

/-- The table has a version of the value, in a row that was written at `t` or later. -/
def Keeps (C : Crypto) (v : Value) (t : Nat) (T : ValueTable) : Prop :=
  ∃ r w, T.lookup (v.getId C) = some r ∧ (t : Int) ≤ r.timestamp ∧ r.toValue = .ok w ∧
    w.Supersedes C v

/-- The row can be read for `MAX_VALUE_AGE`. -/
theorem Keeps.getValue (h : Keeps C v t T) (hage : now ≤ t + MAX_VALUE_AGE) :
    ∃ w, T.getValue now (v.getId C) = .ok (some w) ∧ w.Supersedes C v := by
  obtain ⟨r, w, hr, ht, hw, hsup⟩ := h
  have hlive : r.isLive now = true := by
    rw [ValueRow.isLive, decide_eq_true_eq]
    omega
  refine ⟨w, ?_, hsup⟩
  rw [ValueTable.getValue, hr, Option.filter_some, if_pos hlive]
  simp [hw, Except.map]

/-- A value that the table takes is there. -/
theorem keeps_putValue {e : Int32} {p u : Bool} {old : Option Value} (hv : v.isValid C = true)
    (h : T.checkPut C now v e = .ok old) : Keeps C v now (T.putValue C now v e p u).2 := by
  have hput : (T.putValue C now v e p u).1 = .ok old := by rw [putValue, h]
  obtain ⟨r, hr, ht, hval⟩ := lookup_putValue hput (Value.data_ne_nil_of_isValid hv)
  exact ⟨r, v, hr, ht.ge, hval, .refl hv⟩

/-- A put over a row that can still be read: the guard only lets a later version through. -/
theorem Keeps.putValue (h : Keeps C v t T) {x : Value} (hdata : x.data ≠ []) (e : Int32)
    (p u : Bool) (hle : t ≤ now)
    (hage : now ≤ t + MAX_VALUE_AGE) : Keeps C v t (T.putValue C now x e p u).2 := by
  obtain ⟨w, hget, hw⟩ := h.getValue hage
  obtain ⟨_, -, hput⟩ | ⟨old, an, hcheck, hput⟩ := putValue_cases C T now x e p u
  · rw [hput]
    exact h
  rw [hput]
  by_cases hid : v.getId C = x.getId C
  · obtain ⟨hvalid, hold, hguard⟩ := checkPut_eq_ok hcheck
    rw [← hid, hget] at hold
    cases hold
    have hx : x.Supersedes C v := by
      refine ⟨hid.symm, ?_, fun hm => ?_⟩
      · by_cases hm : x.isMutable = true
        · exact hvalid hm
        · exact Value.isValid_of_immutable hdata (Bool.not_eq_true _ ▸ hm)
      · obtain ⟨hwm, hle⟩ := hw.newer hm
        obtain ⟨hxm, -, hseq, -⟩ := checkOld_eq_ok (hguard w rfl hwm)
        exact ⟨hxm, Int32.le_trans hle hseq⟩
    have hnow : (t : Int) ≤ now := by exact_mod_cast hle
    rw [Keeps, lookup_upsertValue, if_pos hid]
    cases T.lookup (x.getId C) with
    | none => exact ⟨_, x, rfl, hnow, toValue_ofValue hdata p now an, hx⟩
    | some r => exact ⟨_, x, rfl, hnow, toValue_ofValue hdata r.persistent now r.announced, hx⟩
  · rw [Keeps, lookup_upsertValue, if_neg hid]
    exact h

/-- An operation keeps the row, unless it removes it. -/
theorem step_keeps (h : Keeps C v t T) {op : Op}
    (hdata : ∀ x e p u, op = .putValue x e p u → x.data ≠ []) (hop : op ≠ .removeValue (v.getId C))
    (hle : t ≤ now) (hage : now ≤ t + MAX_VALUE_AGE) :
    Keeps C v t (T.step C now op) := by
  cases op with
  | putValue x e p u => exact h.putValue (hdata x e p u rfl) e p u hle hage
  | removeValue valueId =>
    have hid : v.getId C ≠ valueId := fun heq => hop (by rw [heq])
    obtain ⟨r, w, hr, hrest⟩ := h
    refine ⟨r, w, ?_, hrest⟩
    change (T.removeValue valueId).lookup _ = _
    rw [lookup_removeValue, if_neg hid, hr]
  | updateValueLastAnnounce valueId =>
    obtain ⟨r, w, hr, ht, hw, hsup⟩ := h
    change Keeps C v t (T.updateValueLastAnnounce now valueId)
    rw [Keeps, lookup_updateValueLastAnnounce, hr]
    have hnow : (t : Int) ≤ now := by exact_mod_cast hle
    split_ifs
    · exact ⟨_, w, rfl, hnow, hw, hsup⟩
    · exact ⟨r, w, rfl, ht, hw, hsup⟩
  | expire =>
    obtain ⟨r, w, hr, ht, hw, hsup⟩ := h
    have hlive : r.isLive now = true := by
      rw [ValueRow.isLive, decide_eq_true_eq]
      omega
    refine ⟨r, w, ?_, ht, hw, hsup⟩
    change (T.expire now).lookup _ = _
    rw [lookup_expire, hr, Option.filter_some, if_pos (by simp [hlive])]

end ValueTable

/-- An operation that an event may be to the table of values: a value that is put has data, and only
the user of the node removes one. -/
structure StorageEvent.MayBe {C : Crypto} (e : StorageEvent C) (op : ValueTable.Op) : Prop where
  data : ∀ x seq p u, op = .putValue x seq p u → x.data ≠ []
  removes : ∀ id, op = .removeValue id → e = .removeValue id

theorem StorageEvent.MayBe.put {C : Crypto} (e : StorageEvent C) {x : Value}
    (hx : x.data ≠ []) (seq : Int32)
    (p u : Bool) : e.MayBe (.putValue x seq p u) := by
  refine ⟨fun x' seq' p' u' heq => ?_, fun _ heq => by cases heq⟩
  cases heq
  exact hx

namespace InUse

open ValueTable (Keeps)

variable {C : Crypto} {R : RandomOrder} {s : InUse} {v : Value} {t : Nat}

/-- To the table of values, every event is at most one operation, at the time of the event. -/
theorem step_op (s : InUse) (e : StorageEvent C) :
    (s.step C R e).node.storage.values = s.node.storage.values ∨
      ∃ op, e.MayBe op ∧ (s.step C R e).node.storage.values =
        s.node.storage.values.step C s.now op := by
  cases e with
  | elsewhere => exact .inl rfl
  | request msg =>
    change (s.request C R msg).node.storage.values = _ ∨
      ∃ op, _ ∧ (s.request C R msg).node.storage.values = _
    unfold request
    split_ifs
    · exact .inl rfl
    · split
      · next node hok =>
        obtain ⟨peer, -, -, hs⟩ | hs | ⟨x, hx, seq, hs⟩ := Node.serve_storage hok
        · exact .inl (by rw [hs]; rfl)
        · exact .inl (by rw [hs])
        · exact .inr ⟨.putValue x seq false false, .put _ (Value.data_ne_nil_of_isValid hx) _ _ _,
            by rw [hs]; rfl⟩
      · exact .inl rfl
  | findValue id option =>
    refine .inl ?_
    change (s.findValue id option).node.storage.values = _
    unfold findValue
    split <;> rfl
  | foundValue op found =>
    change (s.foundValue C op found).node.storage.values = _ ∨
      ∃ op', _ ∧ (s.foundValue C op found).node.storage.values = _
    unfold foundValue
    split
    · exact .inl rfl
    · dsimp only
      split
      · next x _ =>
        split_ifs
        · exact .inr ⟨.putValue x.1 (-1) false false, .put _ x.2 _ _ _, rfl⟩
        · exact .inl rfl
      · exact .inl rfl
  | storeValue x persistent =>
    change (s.storeValue C x persistent).node.storage.values = _ ∨
      ∃ op, _ ∧ (s.storeValue C x persistent).node.storage.values = _
    unfold storeValue
    split_ifs with hx
    · exact .inr ⟨.putValue x (-1) persistent true,
        .put _ (Value.data_ne_nil_of_isValid hx) _ _ _, rfl⟩
    · exact .inl rfl
  | removeValue valueId => exact .inr ⟨.removeValue valueId, ⟨by simp, by simp⟩, rfl⟩
  | updateValueLastAnnounce valueId =>
    exact .inr ⟨.updateValueLastAnnounce valueId, ⟨by simp, by simp⟩, rfl⟩
  | findPeer id expected option =>
    refine .inl ?_
    change (s.findPeer C R id expected option).node.storage.values = _
    unfold findPeer
    split
    · rfl
    · dsimp only
      split_ifs <;> rfl
  | foundPeers op lookup events _ =>
    refine .inl ?_
    change (s.foundPeers C op lookup events).node.storage.values = _
    unfold foundPeers
    split <;> rfl
  | announcePeer peer persistent _ =>
    refine .inl ?_
    change (s.announcePeer C peer persistent).node.storage.values = _
    unfold announcePeer
    split_ifs <;> rfl
  | removePeer => exact .inl rfl
  | updatePeerLastAnnounce => exact .inl rfl
  | expire => exact .inr ⟨.expire, ⟨by simp, by simp⟩, rfl⟩

/-- In a run of `MAX_VALUE_AGE` the value stays, if the user of the node does not remove it. -/
theorem run_keeps {events : List (StorageEvent C)} (h : Keeps C v t s.node.storage.values)
    (hclock : s.Forward C R events) (hstart : t ≤ s.now)
    (hend : (s.run C R events).now ≤ t + MAX_VALUE_AGE)
    (hremove : .removeValue (v.getId C) ∉ events) :
    Keeps C v t (s.run C R events).node.storage.values := by
  induction events generalizing s with
  | nil => exact h
  | cons e events ih =>
    have hage : s.now ≤ t + MAX_VALUE_AGE := hclock.le.trans hend
    obtain ⟨hne, hrest⟩ := not_or.mp (mt List.mem_cons.mpr hremove)
    refine ih ?_ hclock.2 (hstart.trans hclock.1) hend hrest
    obtain hstep | ⟨op, hop, hstep⟩ := step_op (R := R) s e
    · rw [hstep]
      exact h
    · rw [hstep]
      exact ValueTable.step_keeps h hop.data (fun heq => hne (hop.removes _ heq).symm) hstart hage

end InUse

/-! ## A value in a message -/

/-- What a message carries of a value: everything but the private key. -/
def Value.carried (self : Value) : Value :=
  { self with
    privateKey := none
    immutable_ok := fun h => ⟨(self.immutable_ok h).1, rfl, (self.immutable_ok h).2.2⟩ }

/-- The fields of a value give it back. -/
theorem ValueFields.getValue_setValue {v : Value} (hdata : v.data ≠ []) :
    (ValueFields.setValue {} v).getValue = .ok v.carried := by
  rw [← Value.of_toBlobs v.carried hdata]
  unfold getValue setValue
  by_cases hm : v.isMutable = true
  · have hrecipient : (if v.isEncrypted = true then v.recipient else none) = v.recipient := by
      unfold Value.isEncrypted
      cases v.recipient <;> rfl
    rw [if_pos hm]
    dsimp only
    rw [hrecipient]
    rfl
  · obtain ⟨hrecipient, -, hnonce, hsig, hseq⟩ :=
      v.immutable_ok (by simpa [Value.isMutable] using hm)
    have hkey : v.publicKey = none := by simpa [Value.isMutable] using hm
    rw [if_neg hm]
    -- without a key the constructor does not read the sequence number
    simp [Value.carried, Value.of, Value.blobOf, hrecipient, hnonce, hsig, hkey]

theorem Value.Supersedes.carried {C : Crypto} {v w : Value} (h : w.Supersedes C v) :
    w.carried.Supersedes C v :=
  ⟨h.getId, h.isValid, h.newer⟩

theorem Value.Supersedes.seq_le {C : Crypto} {v w : Value} (h : w.Supersedes C v) :
    v.sequenceNumber ≤ w.sequenceNumber := by
  by_cases hm : v.isMutable = true
  · exact (h.newer hm).2
  · rw [Value.immutable_seq (Bool.not_eq_true _ ▸ hm)]
    exact Int32.le_iff_toInt_le.mpr w.sequenceNumber_nonneg

/-! ## The three requests -/

namespace Node

variable {C : Crypto} {R : RandomOrder} {self after : Node} {type : Network}
    {msg : Message} {v : Value}

/-- A value that comes with its token, and that the storage takes, is stored and acknowledged. -/
theorem onStoreValue_takes (self : Node) (msg : Message) {q : StoreValueRequest}
    (hq : q.getValue = .ok v) (hvalid : v.isValid C = true)
    (htoken : TakesToken C self msg q.token (v.getId C))
    (htake : TakesValue C self v q.expectedSequenceNumber) :
    ∃ mid : Node, self.onStoreValue C msg q = .ok (mid.reply msg .storeValueResponse) ∧
      mid.sent = self.sent ∧
      ValueTable.Keeps C v self.server.now mid.storage.values := by
  obtain ⟨old, hcheck⟩ := (checkPut_ok_iff self hvalid q.expectedSequenceNumber).mpr htake
  let stored := self.storage.putValue C self.server.now v hvalid q.expectedSequenceNumber
  have hstored : stored.1 = .ok () := by
    change (ValueTable.putValue C self.storage.values self.server.now v q.expectedSequenceNumber
      false false).1.map _ = _
    rw [ValueTable.putValue, hcheck]
    rfl
  refine ⟨{ (self.verifyToken C msg q.token (v.getId C)).2 with storage := stored.2 }, ?_, rfl,
    ValueTable.keeps_putValue hvalid hcheck⟩
  unfold onStoreValue
  rw [hq]
  change (if (!(self.verifyToken C msg q.token (v.getId C)).1) = true then _ else _) = _
  have hok : (self.verifyToken C msg q.token (v.getId C)).1 = true := htoken
  rw [hok, if_neg (by simp), dif_pos hvalid]
  change (throwing stored.1 >>= _) = _
  rw [hstored]
  rfl

/-- A value that is in the storage is the answer to a `FIND_VALUE` for it. -/
theorem onFindValue_found (C : Crypto) (self : Node) (type : Network) (msg : Message)
    {q : LookupRequest} {seq : Int32}
    (hget : self.storage.values.getValue self.server.now q.target = .ok (some v))
    (hseq : seq ≤ v.sequenceNumber) :
    ∃ (mid : Node) (l : LookupResponse), self.onFindValue C type msg q seq =
      .ok (mid.reply msg (.findValueResponse l (ValueFields.setValue {} v))) ∧
        mid.sent = self.sent := by
  have hserved : servedValue seq (some v) = some v := by
    rw [servedValue, Option.filter_some, if_pos (by simp [hseq])]
  refine ⟨(self.generateToken C msg self.id).2,
    { token := (self.generateToken C msg self.id).1 }, ?_, rfl⟩
  unfold onFindValue
  dsimp only [generateToken]
  simp only [hget, throwing]
  dsimp only [bind, Except.bind]
  rw [hserved]
  rfl

/-- A lookup that asks for a token is answered, or fails. -/
theorem asks_replied {q : LookupRequest} (hq : asksToken msg.content = some q)
    (hok : self.onRequest C R type msg = .ok after) : Replied msg self after := by
  have hreplied {P : Prop} (h : RepliesIff P msg self (self.onRequest C R type msg)) :
      Replied msg self after := by
    by_cases hP : P
    · obtain ⟨after', hafter, hr⟩ := h.replies hP
      cases hok.symm.trans hafter
      exact hr
    · obtain ⟨fault, hfault⟩ := h.fails hP
      cases hok.symm.trans hfault
  unfold onRequest at hreplied
  cases hc : msg.content with
  | findNodeRequest q =>
    simp only [hc] at hreplied
    exact hreplied (onFindNode_spec q)
  | findValueRequest q seq =>
    simp only [hc] at hreplied
    exact hreplied (onFindValue_spec q seq)
  | findPeerRequest q =>
    simp only [hc] at hreplied
    exact hreplied (onFindPeers_spec q)
  | _ => simp [hc, asksToken] at hq

/-- The reply to a transaction id of 0 is no answer to a lookup. -/
theorem checkTxid_out (self : Node) (msg : Message) :
    ∃ out, self.checkTxid msg = { self with sent := self.sent ++ out } ∧
      ∀ r ∈ out, r.message.lookupResponse? = none := by
  unfold checkTxid
  split_ifs
  · refine ⟨_, rfl, fun r hr => ?_⟩
    rw [List.mem_singleton.mp hr]
    rfl
  · refine ⟨[], ?_, fun r hr => absurd hr List.not_mem_nil⟩
    rw [List.append_nil]

theorem serve_deaf_eq (h : ¬ self.Hears msg) (hok : self.serve C R msg = .ok after) : after =
    self.checkTxid msg := by
  unfold serve at hok
  split at hok
  · cases hok
  · next dht hdht =>
    split_ifs at hok with hc
    · cases hok
      rfl
    · exact absurd ⟨dht, hdht, by simpa using hc⟩ h

theorem mem_repliesSince {mid : Node} {out : List Outgoing} {content : Content}
    (hmid : mid.sent = self.sent ++ out)
    (hreply : ({ content := content } : Message).getType ≠ .request) :
    ∃ r ∈ repliesSince self (mid.reply msg content), r.message.content = content ∧
      r.remoteId = msg.id ∧
      r.remote = msg.origin := by
  have hsent : (mid.reply msg content).sent = self.sent ++ (out ++ [
      { remoteId := msg.id
        remote := msg.origin
        message :=
          { id := mid.id, txid := msg.txid, version := mid.version, content := content } }]) := by
    rw [reply, hmid, List.append_assoc]
  rw [repliesSince_eq hsent]
  refine ⟨_, List.mem_filter.mpr ⟨List.mem_append_right _ (List.mem_singleton_self _), ?_⟩,
    rfl, rfl, rfl⟩
  exact decide_eq_true hreply

end Node

namespace InUse

variable {C : Crypto} {R : RandomOrder} {s : InUse} {v : Value}

/-- What a node sends for a request that it hears. -/
theorem request_eq {msg : Message} (hrx : s.rx = true) (hears : s.node.Hears msg)
    {content : Content} {mid : Node}
    (hok : (s.node.checkTxid msg).onRequest C R (Network.of msg.origin) msg =
    .ok (mid.reply msg content)) (hmid : mid.sent = (s.node.checkTxid msg).sent)
    (hreply : ({ content := content } : Message).getType ≠ .request) :
    (s.request C R msg).node.storage = mid.storage ∧
      ∃ r ∈ Node.repliesSince s.node (s.request C R msg).node, r.message.content = content ∧
        r.remoteId = msg.id ∧
        r.remote = msg.origin := by
  have hserve : s.request C R msg = { s with node := mid.reply msg content } := by
    rw [request, hrx, Node.serve_eq hears, hok]
    rfl
  obtain ⟨out, hout, -⟩ := s.node.checkTxid_out msg
  rw [hserve]
  exact ⟨rfl, Node.mem_repliesSince (hmid.trans (by rw [hout])) hreply⟩

/-- A token that came with an answer is of the stamp that the token manager has now. -/
theorem request_issued {msg : Message} {q : LookupRequest} {r : Outgoing} {l : LookupResponse}
    (hq : Node.asksToken msg.content = some q)
    (hr : r ∈ Node.repliesSince s.node (s.request C R msg).node)
    (hl : r.message.lookupResponse? = some l) :
    Node.Issued C s.node (s.request C R msg).node msg (s.node.boundTarget msg q) l.token := by
  have hnone : r ∉ Node.repliesSince s.node s.node := by simp [Node.repliesSince]
  obtain ⟨out, hout, hplain⟩ := s.node.checkTxid_out msg
  unfold request at hr ⊢
  split_ifs at hr ⊢ with hrx
  · exact absurd hr hnone
  · cases hserve : s.node.serve C R msg with
    | error fault =>
      rw [hserve] at hr
      exact absurd hr hnone
    | ok after =>
      rw [hserve] at hr
      by_cases hears : s.node.Hears msg
      · rw [Node.serve_eq hears] at hserve
        obtain ⟨r', hr', -⟩ := (Node.asks_replied hq hserve).sent
        have hsent : after.sent = s.node.sent ++ (out ++ [r']) := by
          rw [hr', hout, List.append_assoc]
        rw [Node.repliesSince_eq hsent] at hr
        obtain hr | hr := List.mem_append.mp (List.mem_of_mem_filter hr)
        · rw [hplain r hr] at hl
          cases hl
        · obtain rfl := List.mem_singleton.mp hr
          obtain ⟨hmanager, htoken⟩ := Node.onRequest_issued hq hserve hr' hl
          rw [hout] at hmanager htoken
          exact ⟨hmanager, htoken⟩
      · obtain rfl := Node.serve_deaf_eq hears hserve
        rw [Node.repliesSince_eq (by rw [hout])] at hr
        rw [hplain r (List.mem_of_mem_filter hr)] at hl
        cases hl

end InUse

/-! ## The whole -/

/-- A run of a new node, with the three requests. -/
structure Deposit (C : Crypto) where
  node : Node
  before : List (StorageEvent C)
  ask : Message
  between : List (StorageEvent C)
  store : Message
  after : List (StorageEvent C)
  find : Message

namespace Deposit

variable {C : Crypto} (R : RandomOrder) (x : Deposit C)

/-- The node with an empty storage. -/
def start : InUse := { node := { x.node with storage := Storage.empty } }

/-- The node when it is asked for a token, and then. -/
def atAsk : InUse := x.start.run C R x.before
def asked : InUse := (x.atAsk R).request C R x.ask

/-- The node when the value comes, and then. -/
def atStore : InUse := (x.asked R).run C R x.between
def stored : InUse := (x.atStore R).request C R x.store

/-- The node when it is asked for the value. -/
def atFind : InUse := (x.stored R).run C R x.after

/-- All that happens to the node up to the last request. -/
def events : List (StorageEvent C) :=
  x.before ++ .request x.ask :: (x.between ++ .request x.store :: x.after)

/-- The token was handed out with an answer to the first request, for this target. -/
def HandedOut (token : Int32) (target : Id) : Prop :=
  ∃ q r l, Node.asksToken x.ask.content = some q ∧ (x.atAsk R).node.boundTarget x.ask q = target ∧
    r ∈ Node.repliesSince (x.atAsk R).node (x.asked R).node ∧ r.message.lookupResponse? = some l ∧
      l.token = token

/-- The second request brings the value, from the node of the first one. -/
structure Stores (q : StoreValueRequest) (v : Value) : Prop where
  content : x.store.content = .storeValueRequest q
  sender : x.store.id = x.ask.id ∧ x.store.origin = x.ask.origin
  getValue : q.getValue = .ok v
  valid : v.isValid C = true

/-- The times of the run: the clock does not go back, the value comes within `TOKEN_TIMEOUT` of the
token, and it is asked for within `MAX_VALUE_AGE`. -/
structure Timely : Prop where
  fresh : x.node.tokenManager.timestamp = 0
  clock : x.start.Forward C R x.events
  fits : (x.atFind R).now < 2 ^ 64
  token : (x.atStore R).now ≤ (x.atAsk R).now + TOKEN_TIMEOUT.toNat
  value : (x.atFind R).now ≤ (x.atStore R).now + MAX_VALUE_AGE

variable {R} {x}

theorem Timely.parts (h : x.Timely R) : x.start.Forward C R x.before ∧
    (x.atAsk R).now ≤ (x.asked R).now ∧
    (x.asked R).Forward C R x.between ∧ (x.atStore R).now ≤ (x.stored R).now ∧
    (x.stored R).Forward C R x.after := by
  obtain ⟨hbefore, hask, hrest⟩ := InUse.forward_append.mp h.clock
  obtain ⟨hbetween, hstore, hafter⟩ := InUse.forward_append.mp hrest
  exact ⟨hbefore, hask, hbetween, hstore, hafter⟩

/-- The token is still taken when the value comes. -/
theorem Timely.takesToken (h : x.Timely R) {token : Int32} {target : Id}
    (htoken : x.HandedOut R token target)
    (hsender : x.store.id = x.ask.id ∧ x.store.origin = x.ask.origin) :
    Node.TakesToken C (x.atStore R).node x.store token target := by
  obtain ⟨q, r, l, hq, rfl, hr, hl, rfl⟩ := htoken
  obtain ⟨hmanager, htoken⟩ := InUse.request_issued hq hr hl
  obtain ⟨hbefore, hask, hbetween, hstore, hafter⟩ := h.parts
  have hfits : (x.atStore R).now < 2 ^ 64 := (hstore.trans hafter.le).trans_lt h.fits
  have hasked : (x.atAsk R).now < 2 ^ 64 := (hask.trans hbetween.le).trans_lt hfits
  have hstamp : (x.atAsk R).node.tokenManager.timestamp.toNat ≤ (x.atAsk R).now := by
    refine InUse.run_stamp_le hbefore hasked ?_
    rw [show x.start.node.tokenManager.timestamp = 0 from h.fresh]
    exact Nat.zero_le _
  have hstamp' : (x.asked R).node.tokenManager.timestamp.toNat ≤ (x.asked R).now := by
    refine le_trans ?_ hask
    rw [show (x.asked R).node.tokenManager = _ from hmanager]
    unfold TokenManager.updateTokenTimestamps
    split_ifs
    · exact (UInt64.toNat_ofNat_of_lt' hasked).le
    · exact hstamp
  have hwindow : (x.atStore R).now ≤ (x.asked R).now + TOKEN_TIMEOUT.toNat :=
    h.token.trans (Nat.add_le_add_right hask _)
  rw [htoken, ← hsender.1, ← hsender.2]
  exact InUse.run_takesToken hbetween hfits hstamp' hwindow x.store _

/-- A value that comes back with the token of a lookup for its id is acknowledged, and a
`FIND_VALUE` for it is answered with the value, or with a version that took its place. -/
theorem store_then_find (C : Crypto) (R : RandomOrder) (x : Deposit C) (v : Value)
    (q : StoreValueRequest) (f : LookupRequest) (seq : Int32) (htimely : x.Timely R)
    (htoken : x.HandedOut R q.token (v.getId C)) (hstores : x.Stores q v)
    (hrx : (x.atStore R).rx = true ∧ (x.atFind R).rx = true)
    (hears : (x.atStore R).node.Hears x.store ∧ (x.atFind R).node.Hears x.find)
    (htakes : Node.TakesValue C (x.atStore R).node v q.expectedSequenceNumber)
    (hremove : .removeValue (v.getId C) ∉ x.after)
    (hfind : x.find.content = .findValueRequest f seq) (hf : f.target = v.getId C)
    (hseq : seq ≤ v.sequenceNumber) :
    (∃ r ∈ Node.repliesSince (x.atStore R).node (x.stored R).node, r.message.content =
      .storeValueResponse ∧ r.remoteId = x.store.id ∧ r.remote = x.store.origin) ∧
    ∃ r ∈ Node.repliesSince (x.atFind R).node ((x.atFind R).request C R x.find).node, ∃ l fields w,
      r.message.content = .findValueResponse l fields ∧ r.remoteId = x.find.id ∧
        r.remote = x.find.origin ∧
      fields.getValue = .ok w ∧ w.Supersedes C v := by
  obtain ⟨-, -, -, hstore, hafter⟩ := htimely.parts
  -- the value comes
  obtain ⟨out, hout, -⟩ := (x.atStore R).node.checkTxid_out x.store
  have htoken' := htimely.takesToken htoken hstores.sender
  obtain ⟨mid, hmid, hsent, hkeeps⟩ :=
    Node.onStoreValue_takes ((x.atStore R).node.checkTxid x.store) x.store
    hstores.getValue hstores.valid (by rwa [hout]) (by rwa [hout])
  have hreq : ((x.atStore R).node.checkTxid x.store).onRequest C R
      (Network.of x.store.origin) x.store =
      .ok (mid.reply x.store .storeValueResponse) := by
    rw [Node.onRequest, hstores.content]
    exact hmid
  obtain ⟨hstorage, hreply⟩ := InUse.request_eq hrx.1 hears.1 hreq hsent (fun h => by cases h)
  refine ⟨hreply, ?_⟩
  -- it is still there when it is asked for
  have hkept : ValueTable.Keeps C v (x.atStore R).now (x.stored R).node.storage.values := by
    rw [stored, hstorage]
    rwa [hout] at hkeeps
  obtain ⟨w, hget, hw⟩ :=
    (InUse.run_keeps hkept hafter hstore htimely.value hremove).getValue htimely.value
  obtain ⟨out', hout', -⟩ := (x.atFind R).node.checkTxid_out x.find
  obtain ⟨mid', l, hmid', hsent'⟩ := Node.onFindValue_found C ((x.atFind R).node.checkTxid x.find)
    (Network.of x.find.origin) x.find (q := f) (by rw [hout', hf]; exact hget)
      (Int32.le_trans hseq hw.seq_le)
  have hreq' : ((x.atFind R).node.checkTxid x.find).onRequest C R
      (Network.of x.find.origin) x.find =
      .ok (mid'.reply x.find (.findValueResponse l (ValueFields.setValue {} w))) := by
    rw [Node.onRequest, hfind]
    exact hmid'
  obtain ⟨-, r, hr, hcontent, hid, horigin⟩ :=
    InUse.request_eq hrx.2 hears.2 hreq' hsent' (fun h => by cases h)
  exact ⟨r, hr, l, _, w.carried, hcontent, hid, horigin,
    ValueFields.getValue_setValue (Value.data_ne_nil_of_isValid hw.isValid), hw.carried⟩

open ValueTable (ownedCrypto owned5 owned3 ownedId)
open Node (inetNode inetRequest storedOrder)

/-- The node with the clock at some time. -/
def clockAt (now : Nat) : StorageEvent ownedCrypto :=
  .elsewhere inetNode.dht4 none (RPCServer.init now false 1)

/-- The request to store the value. -/
def storeOwned5 : StoreValueRequest := { ValueFields.setValue {} owned5 with token := 0 }

/-- A value of an owner is stored with a token that is some minutes old, an older version of it
comes, and after almost `MAX_VALUE_AGE` somebody asks for it. -/
def ownedDeposit : Deposit ownedCrypto where
  node := inetNode
  before := [clockAt 10]
  ask := inetRequest (.findNodeRequest { target := ownedId, wantToken := true })
  between := [clockAt 200000]
  store := inetRequest (.storeValueRequest storeOwned5)
  after := [clockAt 300000, .storeValue owned3 false, clockAt 7000000, .expire]
  find := inetRequest (.findValueRequest { target := ownedId } 4)

/-- The answer to the first request. -/
def tokenReply : Outgoing where
  remoteId := ownedDeposit.ask.id
  remote := ownedDeposit.ask.origin
  message := { txid := 1, content := .findNodeResponse {} }

theorem handedOut_owned : ownedDeposit.HandedOut storedOrder 0 ownedId := by
  have hreplies : Node.repliesSince (ownedDeposit.atAsk storedOrder).node
      (ownedDeposit.asked storedOrder).node = [tokenReply] := rfl
  refine ⟨_, tokenReply, {}, rfl, rfl, ?_, rfl, rfl⟩
  rw [hreplies]
  exact List.mem_singleton_self _

theorem timely_owned : ownedDeposit.Timely storedOrder where
  fresh := rfl
  clock :=
    ⟨by decide, by decide, by decide, by decide, by decide, by decide, by decide, by
      decide, trivial⟩
  fits := by decide
  token := by decide
  value := by decide

theorem store_then_find_owned :
    let s := ownedDeposit.atFind storedOrder
    ∃ r ∈ Node.repliesSince s.node (s.request ownedCrypto storedOrder ownedDeposit.find).node,
      ∃ l fields w,
      r.message.content = .findValueResponse l fields ∧ fields.getValue = .ok w ∧
        w.Supersedes ownedCrypto owned5 := by
  have hid : owned5.getId ownedCrypto = ownedId := by decide +kernel
  have htoken : ownedDeposit.HandedOut storedOrder storeOwned5.token (owned5.getId ownedCrypto) :=
    hid ▸ handedOut_owned
  have hstores : ownedDeposit.Stores storeOwned5 owned5 := ⟨rfl, ⟨rfl, rfl⟩, rfl, by decide +kernel⟩
  have hstore : (ownedDeposit.atStore storedOrder).node.Hears ownedDeposit.store :=
    ⟨_, rfl, by decide +kernel, by decide +kernel⟩
  have hfind : (ownedDeposit.atFind storedOrder).node.Hears ownedDeposit.find :=
    ⟨_, rfl, by decide +kernel, by decide +kernel⟩
  obtain ⟨r, hr, l, fields, w, hc, -, -, hw, hsup⟩ :=
    (store_then_find ownedCrypto storedOrder ownedDeposit owned5
    storeOwned5 { target := ownedId } 4 timely_owned htoken hstores
      ⟨by decide +kernel, by decide +kernel⟩
    ⟨hstore, hfind⟩ (fun old hold => by cases hold) (by simp [ownedDeposit, clockAt]) rfl hid.symm
      (by decide)).2
  exact ⟨r, hr, l, fields, w, hc, hw, hsup⟩

end Deposit

end Boson
