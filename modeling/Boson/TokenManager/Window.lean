import Boson.Lib.Rotation
import Boson.TokenManager

/-!
# How long a token is accepted

The stamps of a token manager are rotated by whatever call comes next, of whichever node. As long as
the clock does not go back, they are `Rotation.Stamps`.

* `verifyToken_window`: a token is accepted for `TOKEN_TIMEOUT` after it was handed out.
* `verifyToken_rejects_iff`: when it is rejected. A call has to rotate its stamp away early enough
  that a later one rotates that call's stamp away as well: a token that nobody asks the manager
  about in between is accepted after any time.
-/

namespace Boson

open Rotation

/-- A call of the token manager by a handler. -/
inductive TokenCall where
  | generate (nodeId : Id) (addr : SocketAddress) (targetId : Id)
  | verify (token : Int32) (nodeId : Id) (addr : SocketAddress) (targetId : Id)

namespace TokenManager

/-- `TokenManager::TokenManager`. The member `previousTimestamp` is not initialized. -/
def new (sessionSecret : Bytes 32) (previousTimestamp : UInt64) : TokenManager where
  previousTimestamp := previousTimestamp
  sessionSecret := sessionSecret

/-- What a call makes of the manager. -/
def call (self : TokenManager) (C : Crypto) (now : UInt64) : TokenCall → TokenManager
  | .generate nodeId addr targetId => (self.generateToken C now nodeId addr targetId).2
  | .verify token nodeId addr targetId => (self.verifyToken C now token nodeId addr targetId).2

/-- A sequence of calls, each at its time. -/
def run (self : TokenManager) (C : Crypto) (calls : List (UInt64 × TokenCall)) : TokenManager :=
  calls.foldl (fun m c => m.call C c.1 c.2) self

/-- The times of calls. -/
def times (calls : List (UInt64 × TokenCall)) : List Nat := calls.map (·.1.toNat)

/-- The two timestamps. -/
def stamps (self : TokenManager) : Stamps := ⟨self.timestamp.toNat, self.previousTimestamp.toNat⟩

variable {C : Crypto} {self : TokenManager} {calls : List (UInt64 × TokenCall)} {now : UInt64}

theorem call_eq (c : TokenCall) : self.call C now c = self.updateTokenTimestamps now := by
  cases c <;> rfl

theorem sessionSecret_run : (self.run C calls).sessionSecret = self.sessionSecret := by
  induction calls generalizing self with
  | nil => rfl
  | cons c calls ih =>
    change ((self.call C c.1 c.2).run C calls).sessionSecret = _
    rw [ih, call_eq, sessionSecret_update]

/-- The times are in order, and none is before the timestamp of the manager. -/
def Later (self : TokenManager) (times : List Nat) : Prop :=
  (self.timestamp.toNat :: times).Pairwise (· ≤ ·)

theorem Later.update {ts : List Nat} (h : self.Later (now.toNat :: ts)) :
    self.timestamp ≤ now ∧ (self.updateTokenTimestamps now).Later ts := by
  obtain ⟨hle, hclock⟩ := List.pairwise_cons.mp h
  obtain ⟨hfirst, hts⟩ := List.pairwise_cons.mp hclock
  refine ⟨UInt64.le_iff_toNat_le.mpr (hle _ List.mem_cons_self), List.pairwise_cons.mpr ⟨?_, hts⟩⟩
  intro r hr
  unfold updateTokenTimestamps
  split_ifs
  · exact hfirst r hr
  · exact hle r (List.mem_cons_of_mem _ hr)

theorem Later.run {ts : List Nat} (h : self.Later (times calls ++ ts)) :
    (self.run C calls).Later ts := by
  induction calls generalizing self with
  | nil => exact h
  | cons c calls ih =>
    change ((self.call C c.1 c.2).run C calls).Later ts
    refine ih ?_
    rw [call_eq]
    exact (Later.update h).2

/-- While the clock does not go back, the difference of two times does not wrap around. -/
theorem stamps_update (h : self.timestamp ≤ now) :
    (self.updateTokenTimestamps now).stamps = self.stamps.use TOKEN_TIMEOUT.toNat now.toNat := by
  have hcond : now - self.timestamp > TOKEN_TIMEOUT ↔
      TOKEN_TIMEOUT.toNat < now.toNat - self.stamps.current := by
    rw [gt_iff_lt, UInt64.lt_iff_toNat_lt, UInt64.toNat_sub_of_le _ _ h]
    rfl
  unfold updateTokenTimestamps Stamps.use
  by_cases hlate : now - self.timestamp > TOKEN_TIMEOUT
  · rw [if_pos hlate, if_pos (hcond.mp hlate)]
    rfl
  · rw [if_neg hlate, if_neg (mt hcond.mpr hlate)]

/-- The manager rotates its stamps at the times of the calls. -/
theorem stamps_run (h : self.Later (times calls)) :
    (self.run C calls).stamps = self.stamps.run TOKEN_TIMEOUT.toNat (times calls) := by
  induction calls generalizing self with
  | nil => rfl
  | cons c calls ih =>
    obtain ⟨hnow, hlater⟩ := Later.update h
    rw [← call_eq c.2] at hlater
    change ((self.call C c.1 c.2).run C calls).stamps = _
    rw [ih hlater, call_eq, stamps_update hnow]
    rfl

/-! ## A token from its generation to its verification -/

/-- What a new manager hands out at `t`, after some calls. -/
def issue (C : Crypto) (sessionSecret : Bytes 32) (previousTimestamp : UInt64)
    (before : List (UInt64 × TokenCall)) (t : UInt64) (nodeId : Id) (addr : SocketAddress)
    (targetId : Id) : Int32 × TokenManager :=
  ((new sessionSecret previousTimestamp).run C before).generateToken C t nodeId addr targetId

/-- What it says, after more calls, when the token comes back at `t'`. -/
def accepts (C : Crypto) (issued : Int32 × TokenManager) (between : List (UInt64 × TokenCall))
    (t' : UInt64) (nodeId : Id) (addr : SocketAddress) (targetId : Id) : Bool :=
  ((issued.2.run C between).verifyToken C t' issued.1 nodeId addr targetId).1

/-- The times of such a run. -/
def clock (before : List (UInt64 × TokenCall)) (t : UInt64) (between : List (UInt64 × TokenCall))
    (t' : UInt64) : List Nat :=
  times before ++ t.toNat :: (times between ++ [t'.toNat])

section Token

variable {between : List (UInt64 × TokenCall)} {t' : UInt64} {nodeId targetId : Id}
    {addr : SocketAddress}

/-- The stamps that a token is compared with at `t'`. -/
theorem stamps_verify (h : self.Later (times between ++ [t'.toNat])) :
    ((self.run C between).updateTokenTimestamps t').stamps =
      self.stamps.run TOKEN_TIMEOUT.toNat (times between ++ [t'.toNat]) := by
  have hbetween : self.Later (times between) :=
    h.sublist ((List.sublist_append_left _ _).cons_cons _)
  rw [stamps_update (Later.update (h.run (C := C))).1, stamps_run hbetween, run_concat]

/-- A call came late enough to rotate the stamp away, and early enough to be rotated away itself. -/
def Outdated (self : TokenManager) (between : List (UInt64 × TokenCall)) (t' : UInt64) : Prop :=
  ∃ r ∈ times between, self.timestamp.toNat + TOKEN_TIMEOUT.toNat < r ∧
    r + TOKEN_TIMEOUT.toNat < t'.toNat

theorem holds_iff (C : Crypto) (h : self.Later (times between ++ [t'.toNat])) :
    ((self.run C between).updateTokenTimestamps t').stamps.Holds self.timestamp.toNat ↔
      ¬ self.Outdated between t' := by
  rw [stamps_verify h]
  exact held_iff (List.pairwise_cons.mp h).2

theorem accepts_iff (self : TokenManager) (token : Int32) :
    accepts C (token, self) between t' nodeId addr targetId = true ↔
      token = self.tokenAt C nodeId addr targetId
          ((self.run C between).updateTokenTimestamps t').timestamp ∨
        token = self.tokenAt C nodeId addr targetId
          ((self.run C between).updateTokenTimestamps t').previousTimestamp := by
  have hsecret : (self.run C between).sessionSecret = self.sessionSecret := sessionSecret_run
  rw [← tokenAt_congr C hsecret]
  exact verifyToken_iff _ C t' token nodeId addr targetId

/-- A token whose stamp is one of the two is accepted. -/
theorem accepts_of_holds
    (h : ((self.run C between).updateTokenTimestamps t').stamps.Holds self.timestamp.toNat) :
    accepts C (self.tokenAt C nodeId addr targetId self.timestamp, self) between t' nodeId
      addr targetId =
      true := by
  refine (self.accepts_iff _).mpr (h.imp (fun h => ?_) fun h => ?_)
  · exact congrArg _ (UInt64.toNat_inj.mp h)
  · exact congrArg _ (UInt64.toNat_inj.mp h)

theorem later_issue (C : Crypto) (sessionSecret : Bytes 32)
    (previousTimestamp : UInt64) (nodeId : Id) (addr : SocketAddress) (targetId : Id)
    {before : List (UInt64 × TokenCall)} {t : UInt64}
    (hclock : (clock before t between t').Pairwise (· ≤ ·)) :
    (issue C sessionSecret previousTimestamp before t nodeId addr targetId).2.Later
      (times between ++ [t'.toNat]) := by
  have hnew : (new sessionSecret previousTimestamp).Later (clock before t between t') :=
    List.pairwise_cons.mpr ⟨fun r _ => Nat.zero_le r, hclock⟩
  exact (hnew.run (C := C)).update.2

/-- A token is accepted for `TOKEN_TIMEOUT` after it was handed out, whatever is asked for in
between. -/
theorem verifyToken_window (C : Crypto) (sessionSecret : Bytes 32) (previousTimestamp : UInt64)
    (before : List (UInt64 × TokenCall)) (t : UInt64) (nodeId : Id) (addr : SocketAddress)
    (targetId : Id) (between : List (UInt64 × TokenCall)) (t' : UInt64)
    (hclock : (clock before t between t').Pairwise (· ≤ ·))
    (hwindow : t'.toNat ≤ t.toNat + TOKEN_TIMEOUT.toNat) :
    accepts C (issue C sessionSecret previousTimestamp before t nodeId addr targetId) between
      t' nodeId addr
      targetId = true := by
  have hlater := later_issue C sessionSecret previousTimestamp nodeId addr targetId hclock
  refine accepts_of_holds ((holds_iff C hlater).mpr ?_)
  -- a call in between comes after `t`, so that its stamp is still young at `t'`
  rintro ⟨r, hr, -, hsoon⟩
  have hafter := (List.pairwise_append.mp hclock).2.1
  have := (List.pairwise_cons.mp hafter).1 r (List.mem_append_left _ hr)
  omega

/-- A hash that shows the last four bytes of the stamp in front of the secret. -/
def stampCrypto : Crypto where
  sha256 data := Id.ofFn fun i => if i = 0 then 1 else data.getD (data.length - 37 + i) 0
  verify _ _ _ := false

/-- The secret and the address of the examples. -/
def secret : Bytes 32 := ⟨List.replicate 32 7, rfl⟩
def asker : SocketAddress := .inet ⟨[20, 51, 100, 7], Eq.refl 4⟩ 39001

/-- A token whose stamp is rotated away in between. -/
theorem verifyToken_window_rotated :
    accepts stampCrypto (issue stampCrypto secret 5
      [(800000, .generate Id.zero asker Id.MAX_ID)] 1000000
      Id.zero asker Id.zero) [(1200000, .verify 7 Id.zero asker Id.zero)] 1300000 Id.zero
      asker Id.zero = true :=
  verifyToken_window stampCrypto secret 5 _ 1000000 Id.zero asker Id.zero _ 1300000
    (by decide) (by decide)

/-- The stamps that a manager may have had in a run. -/
def stampsOf (previousTimestamp : UInt64) (clock : List Nat) : Set UInt64 :=
  { s | s = 0 ∨ s = previousTimestamp ∨ s.toNat ∈ clock }

theorem stamps_mem_update {S : Set UInt64} (h : self.timestamp ∈ S ∧ self.previousTimestamp ∈ S)
    (hnow : now ∈ S) :
    (self.updateTokenTimestamps now).timestamp ∈ S ∧
      (self.updateTokenTimestamps now).previousTimestamp ∈ S := by
  unfold updateTokenTimestamps
  split_ifs
  · exact ⟨hnow, h.1⟩
  · exact h

theorem stamps_mem_run {S : Set UInt64} (h : self.timestamp ∈ S ∧ self.previousTimestamp ∈ S)
    (hcalls : ∀ c ∈ calls, c.1 ∈ S) :
    (self.run C calls).timestamp ∈ S ∧ (self.run C calls).previousTimestamp ∈ S := by
  induction calls generalizing self with
  | nil => exact h
  | cons c calls ih =>
    rw [List.forall_mem_cons] at hcalls
    have hcall := stamps_mem_update h hcalls.1
    rw [← call_eq c.2] at hcall
    exact ih hcall hcalls.2

/-- A token is rejected exactly if its stamp was rotated away twice. The hash is taken to be
injective on the stamps of the run. -/
theorem verifyToken_rejects_iff (C : Crypto) (sessionSecret : Bytes 32) (previousTimestamp : UInt64)
    (before : List (UInt64 × TokenCall)) (t : UInt64) (nodeId : Id) (addr : SocketAddress)
    (targetId : Id) (between : List (UInt64 × TokenCall)) (t' : UInt64)
    (hclock : (clock before t between t').Pairwise (· ≤ ·))
    (hinj : Set.InjOn ((new sessionSecret previousTimestamp).tokenAt C nodeId addr targetId)
      (stampsOf previousTimestamp (clock before t between t'))) :
    let issued := issue C sessionSecret previousTimestamp before t nodeId addr targetId
    accepts C issued between t' nodeId addr targetId = false ↔ issued.2.Outdated between t' := by
  intro issued
  have hlater := later_issue C sessionSecret previousTimestamp nodeId addr targetId hclock
  let S := stampsOf previousTimestamp (clock before t between t')
  have hbefore (c : UInt64 × TokenCall) (hc : c ∈ before) : c.1 ∈ S :=
    .inr (.inr (List.mem_append_left _ (List.mem_map_of_mem hc)))
  have hbetween (c : UInt64 × TokenCall) (hc : c ∈ between) : c.1 ∈ S :=
    .inr (.inr (by simp [clock, times, List.mem_map_of_mem hc]))
  have ht : t ∈ S := .inr (.inr (by simp [clock]))
  have ht' : t' ∈ S := .inr (.inr (by simp [clock]))
  have hissued : issued.2.timestamp ∈ S ∧ issued.2.previousTimestamp ∈ S :=
    stamps_mem_update (stamps_mem_run ⟨.inl rfl, .inr (.inl rfl)⟩ hbefore) ht
  obtain ⟨hcur, hprev⟩ := stamps_mem_update (stamps_mem_run (C := C) hissued hbetween) ht'
  have htoken : issued.2.tokenAt C nodeId addr targetId =
      (new sessionSecret previousTimestamp).tokenAt C nodeId addr targetId :=
    tokenAt_congr C ((sessionSecret_update _ _).trans sessionSecret_run) nodeId addr targetId
  rw [← not_iff_not, Bool.not_eq_false, ← holds_iff C hlater]
  refine ⟨fun hok => ?_, accepts_of_holds⟩
  have heq := (issued.2.accepts_iff issued.1).mp hok
  have hissue : issued.1 = issued.2.tokenAt C nodeId addr targetId issued.2.timestamp := rfl
  rw [hissue, htoken] at heq
  exact heq.imp (fun h => congrArg _ (hinj hissued.1 hcur h)) fun h =>
    congrArg _ (hinj hissued.1 hprev h)

/-- A token that is rotated away twice, by a call and by its own verification. -/
theorem verifyToken_rejects_rotated :
    accepts stampCrypto (issue stampCrypto secret 0 [] 1000000 Id.zero asker Id.zero)
      [(2000000, .verify 7 Id.zero asker Id.zero)] 3000000 Id.zero asker Id.zero = false := by
  have hstamps (s : UInt64) (hs : s ∈ stampsOf 0 [1000000, 2000000, 3000000]) :
      s ∈ [0, 1000000, 2000000, 3000000] := by
    obtain rfl | rfl | hs := hs
    · decide
    · decide
    · simp only [List.mem_cons, List.not_mem_nil, or_false] at hs
      obtain hs | hs | hs := hs <;> simp [← UInt64.toNat_inj, hs]
  refine (verifyToken_rejects_iff stampCrypto secret 0 [] 1000000 Id.zero asker Id.zero _ 3000000
    (by decide) ?_).mpr ⟨2000000, by decide, by decide, by decide⟩
  intro s hs s' hs' htoken
  have hcheck : (([0, 1000000, 2000000, 3000000] : List UInt64).all fun s =>
      ([0, 1000000, 2000000, 3000000] : List UInt64).all fun s' =>
        (new secret 0).tokenAt stampCrypto Id.zero asker Id.zero s !=
          (new secret 0).tokenAt stampCrypto Id.zero asker Id.zero s' || s == s') = true := by
    decide +kernel
  have hone := List.all_eq_true.mp (List.all_eq_true.mp hcheck s (hstamps s hs)) s' (hstamps s' hs')
  simpa [htoken] using hone

/-- A token comes back after more than a week in which nothing was asked for. -/
theorem verifyToken_idle_accepts :
    ¬ (1000000 + 2 * TOKEN_TIMEOUT.toNat < (1000000000 : UInt64).toNat →
      accepts stampCrypto (issue stampCrypto secret 0 [] 1000000 Id.zero asker Id.zero)
        [] 1000000000 Id.zero
        asker Id.zero = false) := by
  decide +kernel

end Token

end TokenManager

end Boson
