import Boson.Node.StoreFind
import Boson.ValueStorage.Persistent
import Mathlib.Logic.Relation

/-!
# Announcing persistent values again (`Node::persistentAnnounce`)

Every `RE_ANNOUNCE_INTERVAL` a node lists its persistent values that were announced long ago, and
stores them in the network again. Other nodes keep what they are given for `MAX_VALUE_AGE`.

`Pair` is a node that has a persistent value, one that the value is announced to, and what is under
way between them. Time passes only until `G` after the last run of the job of the first node (a job
that is never late has one interval for `G`), and only as long as nothing is under way for more than
`D`.

* `persistentAnnounce_ok`: the job does not fail, and what it announces.
* `Pair.available`: if `G` and `D` together are not more than two intervals, both nodes have the
  value in every state, however long this goes on.
-/

namespace Boson

open Relation (ReflTransGen)

/-- `Constants::RE_ANNOUNCE_INTERVAL`. -/
def RE_ANNOUNCE_INTERVAL : Nat := 5 * 60 * 1000

namespace ValueTable

/-- The bound of `persistentAnnounce` at the time `now`. -/
def lastAnnounceBefore (now : Nat) : Int := (now : Int) - MAX_VALUE_AGE + RE_ANNOUNCE_INTERVAL * 2

/-- The part of `Node::persistentAnnounce` for values: those that are given to `doStoreValue`, and
the table after it. -/
def persistentAnnounce (C : Crypto) (self : ValueTable) (now : Nat) :
    Except String (List Value × ValueTable) := do
  let values ← self.getPersistentValues (lastAnnounceBefore now)
  return (values, values.foldl (fun T v => T.updateValueLastAnnounce now (v.getId C)) self)

variable {C : Crypto} {T : ValueTable} {v : Value} {now : Nat} {r : ValueRow} {id : Id}

/-- Every row can be read, and is filed under the id of its value. -/
def Filed (C : Crypto) (T : ValueTable) : Prop :=
  ∀ k r, T.lookup k = some r → ∃ w, r.toValue = .ok w ∧ w.getId C = k

theorem lookup_announced (values : List Value) (now : Nat) (T : ValueTable) (k : Id) :
    (values.foldl (fun T v => T.updateValueLastAnnounce now (v.getId C)) T).lookup k =
      if k ∈ values.map (·.getId C) then
        (T.lookup k).map fun r => { r with timestamp := now, announced := now }
      else T.lookup k := by
  induction values generalizing T with
  | nil => simp
  | cons v values ih =>
    rw [List.foldl_cons, ih, lookup_updateValueLastAnnounce]
    simp only [List.map_cons, List.mem_cons]
    by_cases hmem : k ∈ values.map (·.getId C)
    · have hcons : k = v.getId C ∨ k ∈ values.map (·.getId C) := .inr hmem
      rw [if_pos hmem, if_pos hcons]
      split_ifs
      · rw [Option.map_map]
        rfl
      · rfl
    · simp only [hmem, if_false, or_false]

theorem Filed.announced (h : Filed C T) (values : List Value) (now : Nat) :
    Filed C (values.foldl (fun T v => T.updateValueLastAnnounce now (v.getId C)) T) := by
  intro k r hr
  rw [lookup_announced] at hr
  split_ifs at hr
  · obtain ⟨r', hr', rfl⟩ := Option.map_eq_some_iff.mp hr
    exact h k r' hr'
  · exact h k r hr

theorem Filed.step (h : Filed C T) {op : Op}
    (hdata : ∀ x e p u, op = .putValue x e p u → x.data ≠ []) (now : Nat) :
    Filed C (T.step C now op) := by
  intro k r hr
  cases op with
  | putValue x e p u =>
    change (T.putValue C now x e p u).2.lookup k = some r at hr
    obtain ⟨_, -, hput⟩ | ⟨old, an, -, hput⟩ := putValue_cases C T now x e p u
    · rw [hput] at hr
      exact h k r hr
    · rw [hput, lookup_upsertValue] at hr
      split_ifs at hr with hk
      · have hx := hdata x e p u rfl
        cases hl : T.lookup (x.getId C) with
        | none =>
          rw [hl] at hr
          cases hr
          exact ⟨x, toValue_ofValue hx p now an, hk.symm⟩
        | some r' =>
          rw [hl] at hr
          cases hr
          exact ⟨x, toValue_ofValue hx r'.persistent now r'.announced, hk.symm⟩
      · exact h k r hr
  | removeValue valueId =>
    change (T.removeValue valueId).lookup k = some r at hr
    rw [lookup_removeValue] at hr
    split_ifs at hr
    exact h k r hr
  | updateValueLastAnnounce valueId =>
    change (T.updateValueLastAnnounce now valueId).lookup k = some r at hr
    rw [lookup_updateValueLastAnnounce] at hr
    split_ifs at hr
    · obtain ⟨r', hr', rfl⟩ := Option.map_eq_some_iff.mp hr
      exact h k r' hr'
    · exact h k r hr
  | expire =>
    change (T.expire now).lookup k = some r at hr
    rw [lookup_expire, Option.filter_eq_some_iff] at hr
    exact h k r hr.1

/-- The job does not fail. The row of a value that was announced by the bound is brought up to date
and the value is announced, no other value is announced under its id, and any other row stays. -/
theorem persistentAnnounce_ok (h : Filed C T) (now : Nat) :
    ∃ values T', T.persistentAnnounce C now = .ok (values, T') ∧ Filed C T' ∧
      (∀ w ∈ values, w.data ≠ []) ∧
      ∀ r v, T.lookup (v.getId C) = some r → r.persistent = true → r.toValue = .ok v →
        (∀ w ∈ values, w.getId C = v.getId C → w = v) ∧
        if r.announced ≤ lastAnnounceBefore now then
          v ∈ values ∧ T'.lookup (v.getId C) = some { r with timestamp := now, announced := now }
        else T'.lookup (v.getId C) = some r := by
  have hread : ∀ r ∈ T.persistentRows (lastAnnounceBefore now), ∃ w, r.toValue = .ok w := by
    intro r hr
    obtain ⟨hrow, -⟩ := mem_persistentRows.mp hr
    obtain ⟨w, hw, -⟩ := h _ r hrow
    exact ⟨w, hw⟩
  obtain ⟨values, hvalues, -⟩ := FoldM.mapM_ok hread
  refine ⟨values, _, by rw [persistentAnnounce, getPersistentValues, hvalues]; rfl,
    h.announced values now, ?_, ?_⟩
  · intro w hw
    obtain ⟨r, -, hval⟩ := FoldM.mem_mapM hvalues w hw
    exact Value.data_ne_nil_of_eq_ok hval
  intro r v hr hp hv
  -- a value that is listed comes from the row of its id
  have honly : ∀ w ∈ values, w.getId C = v.getId C →
      w = v ∧ r.announced ≤ lastAnnounceBefore now := by
    intro w hw hid
    obtain ⟨r', hr', hval⟩ := FoldM.mem_mapM hvalues w hw
    obtain ⟨hrow, -, han⟩ := mem_persistentRows.mp hr'
    obtain ⟨w', hw', hid'⟩ := h _ r' hrow
    rw [hval] at hw'
    cases hw'
    rw [← hid', hid, hr] at hrow
    cases hrow
    rw [hv] at hval
    cases hval
    exact ⟨rfl, han⟩
  refine ⟨fun w hw hid => (honly w hw hid).1, ?_⟩
  split_ifs with han
  · have hmem : v ∈ values := by
      obtain ⟨values', hvalues', hmem⟩ := listed_of
        (mem_persistentRows.mpr ⟨by rw [Table.lookup_key hr]; exact hr, hp, han⟩) hv hread
      rw [getPersistentValues, hvalues] at hvalues'
      cases hvalues'
      exact hmem
    refine ⟨hmem, ?_⟩
    rw [lookup_announced, if_pos (List.mem_map_of_mem hmem), hr]
    rfl
  · rw [lookup_announced, if_neg, hr]
    intro hmem
    obtain ⟨w, hw, hid⟩ := List.mem_map.mp hmem
    exact han (honly w hw hid).2

/-- The job announces nothing as long as no row is old enough. -/
theorem persistentAnnounce_quiet {later : Nat}
    (h : T.persistentRows (lastAnnounceBefore later) = [])
    (hle : now ≤ later) : T.persistentAnnounce C now = .ok ([], T) := by
  have hnone : T.persistentRows (lastAnnounceBefore now) = [] := by
    rw [List.eq_nil_iff_forall_not_mem] at h ⊢
    intro r hr
    obtain ⟨hrow, hp, han⟩ := mem_persistentRows.mp hr
    have hbound : lastAnnounceBefore now ≤ lastAnnounceBefore later := by
      unfold lastAnnounceBefore
      omega
    exact h r (mem_persistentRows.mpr ⟨hrow, hp, han.trans hbound⟩)
  rw [persistentAnnounce, getPersistentValues, hnone]
  rfl

/-- An operation that does not write to a persistent row leaves it as it is. -/
theorem lookup_step_persistent {op : Op} (hop : ¬ op.writes C id) (hr : T.lookup id = some r)
    (hp : r.persistent = true) (now : Nat) : (T.step C now op).lookup id = some r := by
  cases op with
  | putValue x e p u =>
    change (T.putValue C now x e p u).2.lookup id = _
    obtain ⟨_, -, hput⟩ | ⟨_, _, -, hput⟩ := putValue_cases C T now x e p u
    · rw [hput, hr]
    · rw [hput, lookup_upsertValue, if_neg fun hid => hop hid.symm, hr]
  | removeValue valueId =>
    change (T.removeValue valueId).lookup id = _
    rw [lookup_removeValue, if_neg fun hid => hop hid.symm, hr]
  | updateValueLastAnnounce valueId =>
    change (T.updateValueLastAnnounce now valueId).lookup id = _
    rw [lookup_updateValueLastAnnounce, if_neg fun hid => hop hid.symm, hr]
  | expire =>
    change (T.expire now).lookup id = _
    rw [lookup_expire, hr, Option.filter_some, if_pos (by simp [hp])]

end ValueTable

/-! ## Two nodes -/

namespace ValueTable

variable {C : Crypto} {T : ValueTable} {v : Value} {now t : Nat}

/-- The table has the value itself, without the private key, in a row that was written at `t` or
later. -/
def Holds (C : Crypto) (v : Value) (t : Nat) (T : ValueTable) : Prop :=
  ∃ r, T.lookup (v.getId C) = some r ∧ (t : Int) ≤ r.timestamp ∧ r.toValue = .ok v.carried

/-- What may happen to the table of the other node: nobody removes the value or stores another
version of it. -/
structure Op.Leaves (C : Crypto) (v : Value) (op : Op) : Prop where
  data : ∀ x e p u, op = .putValue x e p u → x.data ≠ []
  version : ∀ x e p u, op = .putValue x e p u → x.getId C = v.getId C → x = v.carried
  stays : op ≠ .removeValue (v.getId C)

theorem Holds.getValue (h : Holds C v t T) (hage : now ≤ t + MAX_VALUE_AGE) :
    T.getValue now (v.getId C) = .ok (some v.carried) := by
  obtain ⟨r, hr, ht, hval⟩ := h
  have hlive : r.isLive now = true := by
    rw [ValueRow.isLive, decide_eq_true_eq]
    omega
  rw [ValueTable.getValue, hr, Option.filter_some, if_pos hlive]
  simp [hval, Except.map]

theorem Holds.step (h : Holds C v t T) {op : Op} (hop : op.Leaves C v) (hle : t ≤ now)
    (hage : now ≤ t + MAX_VALUE_AGE) : Holds C v t (T.step C now op) := by
  have hnow : (t : Int) ≤ now := by exact_mod_cast hle
  obtain ⟨r, hr, ht, hval⟩ := h
  cases op with
  | putValue x e p u =>
    change Holds C v t (T.putValue C now x e p u).2
    obtain ⟨_, -, hput⟩ | ⟨old, an, -, hput⟩ := putValue_cases C T now x e p u
    · rw [hput]
      exact ⟨r, hr, ht, hval⟩
    · rw [hput, Holds, lookup_upsertValue]
      by_cases hid : v.getId C = x.getId C
      · have hx := hop.version x e p u rfl hid.symm
        have hdata := hop.data x e p u rfl
        rw [if_pos hid, ← hid, hr]
        subst hx
        exact ⟨_, rfl, hnow, toValue_ofValue hdata r.persistent now r.announced⟩
      · rw [if_neg hid]
        exact ⟨r, hr, ht, hval⟩
  | removeValue valueId =>
    change Holds C v t (T.removeValue valueId)
    rw [Holds, lookup_removeValue, if_neg fun hid => hop.stays (by rw [hid])]
    exact ⟨r, hr, ht, hval⟩
  | updateValueLastAnnounce valueId =>
    change Holds C v t (T.updateValueLastAnnounce now valueId)
    rw [Holds, lookup_updateValueLastAnnounce, hr]
    split_ifs
    · exact ⟨_, rfl, hnow, hval⟩
    · exact ⟨r, rfl, ht, hval⟩
  | expire =>
    have hlive : r.isLive now = true := by
      rw [ValueRow.isLive, decide_eq_true_eq]
      omega
    change Holds C v t (T.expire now)
    rw [Holds, lookup_expire, hr, Option.filter_some, if_pos (by simp [hlive])]
    exact ⟨r, rfl, ht, hval⟩

/-- A node that has the value takes it again, and has it from then on. -/
theorem Holds.putValue (h : Holds C v t T) (hv : v.isValid C = true)
    (hage : now ≤ t + MAX_VALUE_AGE) :
    Holds C v now (T.putValue C now v.carried (-1) false false).2 := by
  have hid : v.carried.getId C = v.getId C := rfl
  have hget := h.getValue hage
  have hvalid : v.carried.isValid C = true := hv
  have hcheck : T.checkPut C now v.carried (-1) = .ok (some v.carried) := by
    rw [checkPut, hvalid, hid, hget]
    simp only [Bool.not_true, Bool.and_false, Bool.false_eq_true, if_false]
    split_ifs with hm
    · have hkey : v.carried.hasPrivateKey = false := rfl
      have hold : checkOld v.carried (-1) v.carried = .ok () := by
        rw [checkOld, hm, hkey]
        simp
      rw [hold]
      rfl
    · rfl
  have hput : (T.putValue C now v.carried (-1) false false).1 = .ok (some v.carried) := by
    rw [ValueTable.putValue, hcheck]
  obtain ⟨r, hr, hts, hval⟩ := lookup_putValue hput (Value.data_ne_nil_of_isValid hvalid)
  exact ⟨r, hr, hts.ge, hval⟩

end ValueTable

/-- A node, the table of another node, and the announcements that are under way to it, each with the
time at which it was made. -/
structure Pair where
  now : Nat
  /-- The time of the last run of `persistentAnnounce`. -/
  lastJob : Nat
  home : ValueTable
  sent : List (Nat × Value) := []
  remote : ValueTable

namespace Pair

open ValueTable

/-- What can happen next, as far as the value `v` goes. -/
inductive Step (C : Crypto) (v : Value) (G D : Nat) : Pair → Pair → Prop
  | tick (s : Pair) (t : Nat) (hle : s.now ≤ t) (hjob : t ≤ s.lastJob + G)
      (hsent : ∀ x ∈ s.sent, t ≤ x.1 + D) :
    Step C v G D s { s with now := t }
  | home (s : Pair) (op : ValueTable.Op) (hdata : ∀ x e p u, op = .putValue x e p u → x.data ≠ [])
    (hop : ¬ op.writes C (v.getId C)) : Step C v G D s { s with home := s.home.step C s.now op }
  | job (s : Pair) (values : List Value) (home : ValueTable)
    (hjob : s.home.persistentAnnounce C s.now = .ok (values, home)) :
    Step C v G D s
      { s with home := home, lastJob := s.now, sent := s.sent ++ values.map (s.now, ·) }
  | deliver (s : Pair) (x : Nat × Value) (hx : x ∈ s.sent) :
    Step C v G D s
      { s with
        sent := s.sent.erase x
        remote := (s.remote.putValue C s.now x.2.carried (-1) false false).2 }
  | remote (s : Pair) (op : ValueTable.Op) (hop : op.Leaves C v) :
    Step C v G D s { s with remote := s.remote.step C s.now op }

/-- The value has a persistent row of its own, which is up to date. -/
structure Row (v : Value) (s : Pair) (r : ValueRow) : Prop where
  persistent : r.persistent = true
  value : r.toValue = .ok v
  /-- The last job found it not old enough, or brought it up to date. -/
  fresh : lastAnnounceBefore s.lastJob < r.announced
  past : r.announced ≤ s.now
  touched : r.announced ≤ r.timestamp

/-- The last announcement has arrived, or it is under way and the one before has arrived in time. -/
def Arrived (v : Value) (G : Nat) (s : Pair) (r : ValueRow) (a : Nat) : Prop :=
  r.announced ≤ a ∨ (∃ x ∈ s.sent, x.2 = v ∧ (x.1 : Int) = r.announced) ∧
    r.announced + RE_ANNOUNCE_INTERVAL * 2 ≤ a + MAX_VALUE_AGE + G

/-- What holds in every state. `a` is a time since when the other node has had the value. -/
structure Inv (C : Crypto) (v : Value) (G D : Nat) (s : Pair) : Prop where
  filed : Filed C s.home
  job : s.lastJob ≤ s.now ∧ s.now ≤ s.lastJob + G
  own : ∀ x ∈ s.sent, x.2.data ≠ [] ∧ (x.2.getId C = v.getId C → x.2 = v) ∧ s.now ≤ x.1 + D
  held : ∃ r a, s.home.lookup (v.getId C) = some r ∧ Row v s r ∧ Holds C v a s.remote ∧ a ≤ s.now ∧
    Arrived v G s r a

variable {C : Crypto} {v : Value} {G D : Nat} {s s' : Pair}

/-- Announcements of other values may leave. -/
theorem Arrived.of_sent {r : ValueRow} {a : Nat} (h : Arrived v G s r a)
    (hsub : ∀ x ∈ s.sent, x.2 = v → x ∈ s'.sent) : Arrived v G s' r a := by
  obtain harrived | ⟨⟨x, hx, hxv, hx1⟩, hbefore⟩ := h
  · exact .inl harrived
  · exact .inr ⟨⟨x, hsub x hx hxv, hxv, hx1⟩, hbefore⟩

/-- The other node has had the value for less than `MAX_VALUE_AGE`. -/
theorem Inv.age (h : Inv C v G D s) (hGD : G + D ≤ RE_ANNOUNCE_INTERVAL * 2)
    {r : ValueRow} {a : Nat}
    (hrow : Row v s r) (harrived : Arrived v G s r a) : s.now ≤ a + MAX_VALUE_AGE := by
  have hfresh := hrow.fresh
  have hjob := h.job.2
  simp only [Arrived, lastAnnounceBefore, RE_ANNOUNCE_INTERVAL,
    MAX_VALUE_AGE] at hfresh hGD harrived ⊢
  obtain harrived | ⟨⟨x, hx, -, hx1⟩, hbefore⟩ := harrived
  · omega
  · have hsent := (h.own x hx).2.2
    omega

/-- A step of the other node's table. -/
theorem Inv.held_remote (h : Inv C v G D s) (hGD : G + D ≤ RE_ANNOUNCE_INTERVAL * 2)
    {op : ValueTable.Op} (hop : op.Leaves C v) :
    ∃ r a, s.home.lookup (v.getId C) = some r ∧ Row v s r ∧
      Holds C v a (s.remote.step C s.now op) ∧ a ≤ s.now ∧
      Arrived v G s r a := by
  obtain ⟨r, a, hr, hrow, hholds, ha, harrived⟩ := h.held
  exact ⟨r, a, hr, hrow, hholds.step hop ha (h.age hGD hrow harrived), ha, harrived⟩

theorem Inv.step (hv : v.isValid C = true) (hGD : G + D ≤ RE_ANNOUNCE_INTERVAL * 2)
    (h : Inv C v G D s)
    (hstep : Step C v G D s s') : Inv C v G D s' := by
  cases hstep with
  | tick t hle hjob hsent =>
    obtain ⟨r, a, hr, hrow, hholds, ha, harrived⟩ := h.held
    refine ⟨h.filed, ⟨h.job.1.trans hle, hjob⟩, fun x hx =>
      ⟨(h.own x hx).1, (h.own x hx).2.1, hsent x hx⟩, r, a,
      hr, ⟨hrow.persistent, hrow.value, hrow.fresh, ?_, hrow.touched⟩, hholds,
        ha.trans hle, harrived⟩
    have hpast := hrow.past
    dsimp only
    omega
  | home op hdata hop =>
    obtain ⟨r, a, hr, hrow, hholds, ha, harrived⟩ := h.held
    exact ⟨h.filed.step hdata s.now, h.job, h.own, r, a,
      lookup_step_persistent hop hr hrow.persistent s.now,
      ⟨hrow.persistent, hrow.value, hrow.fresh, hrow.past, hrow.touched⟩, hholds, ha, harrived⟩
  | job values home hjob =>
    obtain ⟨r, a, hr, hrow, hholds, ha, harrived⟩ := h.held
    obtain ⟨values', home', hjob', hfiled, hdata, hall⟩ := persistentAnnounce_ok h.filed s.now
    rw [hjob] at hjob'
    cases hjob'
    obtain ⟨honly, hrow'⟩ := hall r v hr hrow.persistent hrow.value
    have hown : ∀ x ∈ s.sent ++ values.map (s.now, ·),
        x.2.data ≠ [] ∧ (x.2.getId C = v.getId C → x.2 = v) ∧ s.now ≤ x.1 + D := by
      intro x hx
      obtain hx | hx := List.mem_append.mp hx
      · exact h.own x hx
      · obtain ⟨w, hw, rfl⟩ := List.mem_map.mp hx
        exact ⟨hdata w hw, honly w hw, Nat.le_add_right _ _⟩
    refine ⟨hfiled, ⟨le_rfl, Nat.le_add_right _ _⟩, hown, ?_⟩
    split_ifs at hrow' with hlisted
    · -- the announcement before this one is not under way any more
      obtain ⟨hmem, hr'⟩ := hrow'
      have harrived : r.announced ≤ a := by
        obtain harrived | ⟨⟨x, hx, -, hx1⟩, -⟩ := harrived
        · exact harrived
        · have hsent := (h.own x hx).2.2
          simp only [lastAnnounceBefore, RE_ANNOUNCE_INTERVAL, MAX_VALUE_AGE] at hlisted hGD
          omega
      refine ⟨_, a, hr', ⟨hrow.persistent, hrow.value, ?_, le_rfl, le_rfl⟩, hholds, ha,
        .inr ⟨⟨(s.now, v), List.mem_append_right _ (List.mem_map_of_mem hmem), rfl, rfl⟩, ?_⟩⟩
      · simp only [lastAnnounceBefore, RE_ANNOUNCE_INTERVAL, MAX_VALUE_AGE]
        omega
      · have hfresh := hrow.fresh
        have hlate := h.job.2
        simp only [lastAnnounceBefore, RE_ANNOUNCE_INTERVAL, MAX_VALUE_AGE] at hfresh ⊢
        omega
    · exact ⟨r, a, hrow', ⟨hrow.persistent, hrow.value, not_le.mp hlisted, hrow.past, hrow.touched⟩,
        hholds, ha, harrived.of_sent fun x hx _ => List.mem_append_left _ hx⟩
  | deliver x hx =>
    have hown : ∀ y ∈ s.sent.erase x, y.2.data ≠ [] ∧ (y.2.getId C = v.getId C → y.2 = v) ∧
        s.now ≤ y.1 + D :=
      fun y hy => h.own y (List.mem_of_mem_erase hy)
    by_cases hid : x.2.getId C = v.getId C
    · obtain ⟨r, a, hr, hrow, hholds, ha, harrived⟩ := h.held
      have hx2 : x.2 = v := (h.own x hx).2.1 hid
      refine ⟨h.filed, h.job, hown, r, s.now, hr,
        ⟨hrow.persistent, hrow.value, hrow.fresh, hrow.past, hrow.touched⟩, ?_, le_rfl,
          .inl hrow.past⟩
      rw [hx2]
      exact hholds.putValue hv (h.age hGD hrow harrived)
    · have hop : (ValueTable.Op.putValue x.2.carried (-1) false false).Leaves C v := by
        refine ⟨?_, ?_, by simp⟩
        · rintro _ _ _ _ ⟨⟩
          exact (h.own x hx).1
        · rintro _ _ _ _ ⟨⟩ hid'
          exact absurd hid' hid
      obtain ⟨r, a, hr, hrow, hholds, ha, harrived⟩ := h.held_remote hGD hop
      refine ⟨h.filed, h.job, hown, r, a, hr,
        ⟨hrow.persistent, hrow.value, hrow.fresh, hrow.past, hrow.touched⟩, hholds, ha,
        harrived.of_sent fun y hy hyv => (List.mem_erase_of_ne ?_).mpr hy⟩
      rintro rfl
      exact hid (by rw [hyv])
  | remote op hop =>
    obtain ⟨r, a, hr, hrow, hholds, ha, harrived⟩ := h.held_remote hGD hop
    exact ⟨h.filed, h.job, h.own, r, a, hr,
      ⟨hrow.persistent, hrow.value, hrow.fresh, hrow.past, hrow.touched⟩, hholds, ha, harrived⟩

theorem Inv.run (hv : v.isValid C = true) (hGD : G + D ≤ RE_ANNOUNCE_INTERVAL * 2)
    (h : Inv C v G D s)
    (hrun : ReflTransGen (Step C v G D) s s') : Inv C v G D s' := by
  induction hrun with
  | refl => exact h
  | tail _ hstep ih => exact ih.step hv hGD hstep

/-- The node after it has stored the value in its table `T` to keep and announce it, and the other
node after it has taken the value into its table `T'`. -/
def start (C : Crypto) (v : Value) (now lastJob : Nat) (T T' : ValueTable) : Pair where
  now := now
  lastJob := lastJob
  home := (T.putValue C now v (-1) true true).2
  remote := (T'.putValue C now v.carried (-1) false false).2

variable {T T' : ValueTable} {now lastJob : Nat} {old : Option Value}

theorem inv_start (hv : v.isValid C = true) (hfiled : Filed C T)
    (hnew : T.lookup (v.getId C) = none)
    (hput : (T'.putValue C now v.carried (-1) false false).1 = .ok old)
    (hjob : lastJob ≤ now) (hlate : now ≤ lastJob + G) :
    Inv C v G D (start C v now lastJob T T') := by
  have hdata : v.data ≠ [] := Value.data_ne_nil_of_isValid hv
  have hcheck : T.checkPut C now v (-1) = .ok none := by
    rw [checkPut, ValueTable.getValue, hnew, hv]
    simp
  have hhome : (T.putValue C now v (-1) true true).2 =
      T.upsertValue (ValueRow.ofValue C v true now now) := by
    rw [ValueTable.putValue, hcheck]
    rfl
  have hrow : (start C v now lastJob T T').home.lookup (v.getId C) =
      some (ValueRow.ofValue C v true now now) := by
    change (T.putValue C now v (-1) true true).2.lookup _ = _
    rw [hhome, lookup_upsertValue, if_pos rfl, hnew]
    rfl
  obtain ⟨r, hr, hts, hval⟩ := lookup_putValue hput hdata
  refine ⟨?_, ⟨hjob, hlate⟩, fun x hx => (by cases hx), _, now, hrow,
    ⟨rfl, toValue_ofValue hdata true now now, ?_, le_rfl, le_rfl⟩, ⟨r, hr, hts.ge, hval⟩, le_rfl,
      .inl le_rfl⟩
  · have hops : ∀ x e p u, ValueTable.Op.putValue v (-1) true true = .putValue x e p u →
        x.data ≠ [] := by
      rintro _ _ _ _ ⟨⟩
      exact hdata
    exact hfiled.step hops now
  · change lastAnnounceBefore lastJob < (now : Int)
    simp only [lastAnnounceBefore, RE_ANNOUNCE_INTERVAL, MAX_VALUE_AGE]
    omega

/-- A value that is stored to be kept stays available. However long the two nodes go on, if the job
runs again within `G` of its last run, and an announcement is not under way for more than `D`, then
the job runs without failing, the node has its value with the private key, and the other node
answers with it. -/
theorem available (hv : v.isValid C = true) (hGD : G + D ≤ RE_ANNOUNCE_INTERVAL * 2)
    (hfiled : Filed C T) (hnew : T.lookup (v.getId C) = none)
    (hput : (T'.putValue C now v.carried (-1) false false).1 = .ok old)
    (hjob : lastJob ≤ now) (hlate : now ≤ lastJob + G)
    (hrun : ReflTransGen (Step C v G D) (start C v now lastJob T T') s) :
    s.home.getValue s.now (v.getId C) = .ok (some v) ∧
    s.remote.getValue s.now (v.getId C) = .ok (some v.carried) ∧
    ∃ values home, s.home.persistentAnnounce C s.now = .ok (values, home) := by
  have hinv := (inv_start (D := D) hv hfiled hnew hput hjob hlate).run hv hGD hrun
  obtain ⟨r, a, hr, hrow, hholds, ha, harrived⟩ := hinv.held
  refine ⟨?_, hholds.getValue (hinv.age hGD hrow harrived), ?_⟩
  · have hfresh := hrow.fresh
    have htouched := hrow.touched
    have hnow := hinv.job.2
    simp only [lastAnnounceBefore, RE_ANNOUNCE_INTERVAL, MAX_VALUE_AGE] at hfresh hGD
    have hlive : r.isLive s.now = true := by
      rw [ValueRow.isLive, decide_eq_true_eq, MAX_VALUE_AGE]
      omega
    rw [ValueTable.getValue, hr, Option.filter_some, if_pos hlive]
    simp [hrow.value, Except.map]
  · obtain ⟨values, home, hok, -⟩ := persistentAnnounce_ok hinv.filed s.now
    exact ⟨values, home, hok⟩

/-- A value of an owner in the tables of two nodes that had none. -/
def ownedPair : Pair := start ownedCrypto owned5 0 0 Table.empty Table.empty

/-- The table of the first node after the 22nd job, the first one that announces the value again. -/
def reannounced : ValueTable :=
  ownedPair.home.updateValueLastAnnounce (22 * RE_ANNOUNCE_INTERVAL) (owned5.getId ownedCrypto)

/-- The two nodes two intervals after the announcement has arrived, which it does after one
interval. -/
def ownedPairAgain : Pair where
  now := 25 * RE_ANNOUNCE_INTERVAL
  lastJob := 25 * RE_ANNOUNCE_INTERVAL
  home := reannounced
  remote :=
    (ownedPair.remote.putValue ownedCrypto (23 * RE_ANNOUNCE_INTERVAL) owned5.carried (-1)
      false false).2

/-- The steps of the two nodes, if the job is never late. -/
abbrev OnTime : Pair → Pair → Prop :=
  Step ownedCrypto owned5 RE_ANNOUNCE_INTERVAL RE_ANNOUNCE_INTERVAL

/-- Intervals in which the job has nothing to announce. -/
theorem onTime_quiet (home remote : ValueTable) (k n : Nat)
    (hquiet : home.persistentRows (lastAnnounceBefore ((k + n) * RE_ANNOUNCE_INTERVAL)) = []) :
    ReflTransGen OnTime
      { now := k * RE_ANNOUNCE_INTERVAL, lastJob := k * RE_ANNOUNCE_INTERVAL, home := home,
        remote := remote }
      { now := (k + n) * RE_ANNOUNCE_INTERVAL, lastJob := (k + n) * RE_ANNOUNCE_INTERVAL,
        home := home
        remote := remote } := by
  suffices h : ∀ m ≤ n, ReflTransGen OnTime
      { now := k * RE_ANNOUNCE_INTERVAL, lastJob := k * RE_ANNOUNCE_INTERVAL, home := home,
        remote := remote }
      { now := (k + m) * RE_ANNOUNCE_INTERVAL, lastJob := (k + m) * RE_ANNOUNCE_INTERVAL,
        home := home
        remote := remote } from h n le_rfl
  intro m hm
  induction m with
  | zero => exact .refl
  | succ m ih =>
    refine ((ih (by omega)).tail (.tick _ ((k + (m + 1)) * RE_ANNOUNCE_INTERVAL) ?_ ?_ ?_)).tail
      (.job _ [] home (persistentAnnounce_quiet hquiet ?_))
    · exact Nat.mul_le_mul_right _ (by omega)
    · dsimp only
      rw [← Nat.succ_mul]
      exact Nat.mul_le_mul_right _ (by omega)
    · intro x hx
      cases hx
    · exact Nat.mul_le_mul_right _ (by omega)

/-- More than `MAX_VALUE_AGE` after the value was stored, the other node answers with it, because
the 22nd job announced it again. -/
theorem available_ownedPair :
    ownedPair.now + MAX_VALUE_AGE < ownedPairAgain.now ∧
    ownedPairAgain.home.getValue ownedPairAgain.now (owned5.getId ownedCrypto) = .ok (some owned5) ∧
    ownedPairAgain.remote.getValue ownedPairAgain.now (owned5.getId ownedCrypto) =
      .ok (some owned5.carried) ∧
    ∃ values home, ownedPairAgain.home.persistentAnnounce ownedCrypto ownedPairAgain.now =
      .ok (values, home) := by
  have hvalid : owned5.isValid ownedCrypto = true := by decide +kernel
  have hput : (ValueTable.putValue ownedCrypto Table.empty 0 owned5.carried (-1) false false).1 =
      .ok none := rfl
  have hbefore : ReflTransGen OnTime ownedPair
      { ownedPair with now := 21 * RE_ANNOUNCE_INTERVAL, lastJob := 21 * RE_ANNOUNCE_INTERVAL } :=
    onTime_quiet ownedPair.home ownedPair.remote 0 21 rfl
  have htick : OnTime
      { ownedPair with now := 21 * RE_ANNOUNCE_INTERVAL, lastJob := 21 * RE_ANNOUNCE_INTERVAL }
      { ownedPair with now := 22 * RE_ANNOUNCE_INTERVAL, lastJob := 21 * RE_ANNOUNCE_INTERVAL } :=
    .tick _ _ (by decide) (by decide) (fun x hx => by cases hx)
  have hjob : OnTime
      { ownedPair with now := 22 * RE_ANNOUNCE_INTERVAL, lastJob := 21 * RE_ANNOUNCE_INTERVAL }
      { ownedPair with
        now := 22 * RE_ANNOUNCE_INTERVAL
        lastJob := 22 * RE_ANNOUNCE_INTERVAL
        home := reannounced
        sent := [(22 * RE_ANNOUNCE_INTERVAL, owned5)] } :=
    .job _ [owned5] reannounced rfl
  have hway : OnTime
      { ownedPair with
        now := 22 * RE_ANNOUNCE_INTERVAL
        lastJob := 22 * RE_ANNOUNCE_INTERVAL
        home := reannounced
        sent := [(22 * RE_ANNOUNCE_INTERVAL, owned5)] }
      { ownedPair with
        now := 23 * RE_ANNOUNCE_INTERVAL
        lastJob := 22 * RE_ANNOUNCE_INTERVAL
        home := reannounced
        sent := [(22 * RE_ANNOUNCE_INTERVAL, owned5)] } :=
    .tick _ _ (by decide) (by decide) (by decide)
  have harrive : OnTime
      { ownedPair with
        now := 23 * RE_ANNOUNCE_INTERVAL
        lastJob := 22 * RE_ANNOUNCE_INTERVAL
        home := reannounced
        sent := [(22 * RE_ANNOUNCE_INTERVAL, owned5)] }
      { ownedPairAgain with
        now := 23 * RE_ANNOUNCE_INTERVAL, lastJob := 22 * RE_ANNOUNCE_INTERVAL } :=
    .deliver _ (22 * RE_ANNOUNCE_INTERVAL, owned5) (List.mem_singleton_self _)
  have hnext : OnTime
      { ownedPairAgain with now := 23 * RE_ANNOUNCE_INTERVAL, lastJob := 22 * RE_ANNOUNCE_INTERVAL }
      { ownedPairAgain with
        now := 23 * RE_ANNOUNCE_INTERVAL, lastJob := 23 * RE_ANNOUNCE_INTERVAL } :=
    .job _ [] reannounced rfl
  have hrun : ReflTransGen OnTime ownedPair ownedPairAgain :=
    (((((hbefore.tail htick).tail hjob).tail hway).tail harrive).tail hnext).trans
      (onTime_quiet reannounced ownedPairAgain.remote 23 2 rfl)
  exact ⟨by decide, available hvalid (by decide) (fun k r hr => by cases hr) rfl hput le_rfl
    (by decide) hrun⟩

end Pair

end Boson
