import Boson.ActiveProxy.Proxy

/-!
# The delay before a new connection (`ActiveProxy::needsNewConnection`, `ActiveProxy::connect`)

When a connection could not be opened, the proxy waits before it tries again. `onOpenFailed` doubles
the delay with each failure as long as it is less than 64. But the delay is in milliseconds, so it
is past that bound after the first failure, and stays at 2 seconds.

* `needsNewConnection_delay`: no connection is made before the delay is over.
* `reconnectDelay_iff`: after `n` failures in a row the proxy waits `min (2 ^ n) 64` seconds exactly
  if `n` is at most 1.
* `run_reconnectDelay`: in every run of the proxy the delay is 0 or 2 seconds.
-/

namespace Boson

namespace ActiveProxy

namespace Proxy

variable {self : Proxy} {now : UInt64} {id : Nat}

/-- A new connection is needed at the earliest when the delay is over. -/
theorem needsNewConnection_delay (h : (self.needsNewConnection now).2 = true) :
    self.reconnectDelay.toNat ≤ (now - self.lastConnectTimestamp).toNat := by
  unfold needsNewConnection at h
  split_ifs at h with hfull hwait
  all_goals
    by_contra hlt
    rw [Nat.not_le] at hlt
    refine hwait ⟨fun hzero => ?_, hlt⟩
    simp [hzero] at hlt

/-- What has to do with the delay: a connection calls a handler, or the proxy looks for a new
connection. -/
inductive Turn where
  | call (now : UInt64) (id : Nat) (call : Call)
  | iterate (env : Env)

/-- The proxy after it. -/
def turn (self : Proxy) : Turn → Proxy
  | .call now id call => self.handle now id call
  | .iterate env => self.onIteration env

/-- The proxy after a sequence of turns. -/
def turns (self : Proxy) (ts : List Turn) : Proxy := ts.foldl turn self

@[simp] theorem turns_concat (self : Proxy) (ts : List Turn) (t : Turn) :
    self.turns (ts ++ [t]) = (self.turns ts).turn t :=
  List.foldl_concat ..

/-- The failures in a row, counted from the last connection that was opened. -/
def countFailure (n : Nat) : Turn → Nat
  | .call _ _ .openFailed => n + 1
  | .call _ _ .opened => 0
  | _ => n

def failuresInARow (ts : List Turn) : Nat := ts.foldl countFailure 0

@[simp] theorem failuresInARow_concat (ts : List Turn) (t : Turn) :
    failuresInARow (ts ++ [t]) = countFailure (failuresInARow ts) t :=
  List.foldl_concat ..

/-- The delay after `n` failures in a row, in milliseconds. -/
def backoff (n : Nat) : Nat := min (2 ^ n) 64 * 1000

/-- A turn after `n` failures in a row. One more failure sets the delay by their number, and a
connection that is opened sets it to 0. Nothing else changes it before the next connection is made,
and that waits until it is over. -/
def Enforces (self : Proxy) (n : Nat) : Turn → Prop
  | .call now id .openFailed =>
    (self.handle now id .openFailed).reconnectDelay.toNat = backoff (n + 1)
  | .call now id .opened => (self.handle now id .opened).reconnectDelay = 0
  | .call now id call => (self.handle now id call).reconnectDelay = self.reconnectDelay
  | .iterate env =>
    if (self.needsNewConnection env.now).2 then
      self.reconnectDelay.toNat ≤ (env.now - self.lastConnectTimestamp).toNat
    else (self.onIteration env).reconnectDelay = self.reconnectDelay

/-- There is no delay and no failure is counted, or the delay is 2 seconds. -/
def TwoSeconds (self : Proxy) : Prop :=
  (self.serverFails = 0 ∧ self.reconnectDelay = 0) ∨ self.reconnectDelay = 2000

theorem needsNewConnection_of_false (h : (self.needsNewConnection now).2 = false) :
    (self.needsNewConnection now).1 = self := by
  unfold needsNewConnection at h ⊢
  split_ifs at h ⊢ <;> rfl

namespace TwoSeconds

theorem congr {after : Proxy} (h : self.TwoSeconds) (hfails : after.serverFails = self.serverFails)
    (hdelay : after.reconnectDelay = self.reconnectDelay) : after.TwoSeconds := by
  rw [TwoSeconds, hfails, hdelay]
  exact h

/-- The first failure sets the delay, and no later one changes it. -/
theorem openFailed (h : self.TwoSeconds) (now : UInt64) (id : Nat) :
    (self.handle now id .openFailed).reconnectDelay = 2000 := by
  dsimp only [handle]
  obtain ⟨hfails, hdelay⟩ | hdelay := h
  · rw [hfails, hdelay]
    rfl
  · rw [hdelay]
    rfl

theorem handle (h : self.TwoSeconds) (now : UInt64) (id : Nat) (call : Call) :
    (self.handle now id call).TwoSeconds := by
  cases call with
  | opened => exact .inl ⟨rfl, rfl⟩
  | openFailed => exact .inr (h.openFailed now id)
  | _ => exact h.congr rfl rfl

theorem onIteration (h : self.TwoSeconds) (env : Env) : (self.onIteration env).TwoSeconds := by
  have hneeds : (self.needsNewConnection env.now).1.TwoSeconds := by
    unfold needsNewConnection
    split_ifs
    all_goals first | exact h | exact .inl ⟨rfl, rfl⟩
  unfold Proxy.onIteration
  split
  · exact hneeds.congr rfl rfl
  · exact hneeds

theorem turns (maxConnections : UInt32) (ts : List Turn) :
    ((start maxConnections).turns ts).TwoSeconds := by
  induction ts using List.reverseRecOn with
  | nil => exact .inl ⟨rfl, rfl⟩
  | append_singleton ts t ih =>
    rw [turns_concat]
    cases t with
    | call now id call => exact ih.handle now id call
    | iterate env => exact ih.onIteration env

end TwoSeconds

/-- The delay of 2 seconds is that of one failure only. -/
theorem backoff_eq_iff (n : Nat) : 2000 = backoff (n + 1) ↔ n = 0 := by
  unfold backoff
  cases n with
  | zero => decide
  | succ n =>
    have hpow : 4 ≤ 2 ^ (n + 1 + 1) :=
      Nat.pow_le_pow_right (n := 2) (by decide) (by omega : 2 ≤ n + 1 + 1)
    omega

/-- A turn goes by the law, unless it is a failure after a failure. -/
theorem TwoSeconds.enforces_iff (h : self.TwoSeconds) {n : Nat} (hn : n ≤ 1) (t : Turn) :
    self.Enforces n t ↔ countFailure n t ≤ 1 := by
  cases t with
  | call now id call =>
    cases call with
    | openFailed =>
      have hdelay : (self.handle now id .openFailed).reconnectDelay.toNat = 2000 := by
        rw [h.openFailed]
        rfl
      change _ = backoff (n + 1) ↔ n + 1 ≤ 1
      rw [hdelay, backoff_eq_iff]
      omega
    | opened => exact iff_of_true rfl (Nat.zero_le 1)
    | _ => exact iff_of_true rfl hn
  | iterate env =>
    refine iff_of_true ?_ hn
    dsimp only [Enforces]
    split_ifs with hneeds
    · exact needsNewConnection_delay hneeds
    · have hsame := needsNewConnection_of_false (Bool.eq_false_iff.mpr hneeds)
      unfold Proxy.onIteration
      rw [if_neg hneeds, hsame]

/-- Over all calls of the handlers and all iterations: the delay goes by the law, and is enforced,
exactly if no connection fails to open after one that failed, without one that was opened in
between. -/
theorem reconnectDelay_iff (maxConnections : UInt32) (ts : List Turn) :
    Runs.Every (fun pre t => ((start maxConnections).turns pre).Enforces
      (failuresInARow pre) t) ts ↔
      ∀ pre, pre <+: ts → failuresInARow pre ≤ 1 := by
  rw [Runs.forall_initial_iff (Q := fun pre => failuresInARow pre ≤ 1) (Nat.zero_le 1)]
  have hiff (pre : List Turn) (t : Turn) (hpre : failuresInARow pre ≤ 1) :
      ((start maxConnections).turns pre).Enforces (failuresInARow pre) t ↔
        failuresInARow (pre ++ [t]) ≤ 1 := by
    rw [failuresInARow_concat]
    exact (TwoSeconds.turns maxConnections pre).enforces_iff hpre t
  exact Runs.every_iff_of_inv (I := fun pre => failuresInARow pre ≤ 1) (Nat.zero_le 1)
    (fun pre t hpre ht => (hiff pre t hpre).mp ht) hiff ts

/-- The first two connections fail: the second failure leaves the delay at 2 seconds. -/
def twoFailures : List Turn :=
  [.iterate {}, .call 0 0 .openFailed, .call 0 0 .closed, .iterate { now := 2000 },
    .call 2000 1 .openFailed]

/-- A connection is open and busy, and a second one fails. The first is closed, so the session is
reset for the third, which fails too. -/
def resetBetween : List Turn :=
  [.iterate {}, .call 0 0 (.authorized [] 80 false), .call 0 0 .opened, .call 0 0 .busy,
    .iterate {}, .call 0 1 .openFailed, .call 0 1 .closed, .call 0 0 .closed,
    .iterate { now := 2000 }, .call 2000 2 .openFailed]

theorem reconnectDelay_twice :
    ¬ Runs.Every (fun pre t => ((start 16).turns pre).Enforces (failuresInARow pre) t) twoFailures ∧
      ¬ Runs.Every (fun pre t => ((start 16).turns pre).Enforces (failuresInARow pre) t)
        resetBetween := by
  constructor
  · intro h
    have hdelay : ((start 16).turns twoFailures).reconnectDelay.toNat = backoff 2 :=
      h (twoFailures.take 4) _ [] rfl
    exact absurd hdelay (by decide)
  · intro h
    have hdelay : ((start 16).turns resetBetween).reconnectDelay.toNat = backoff 2 :=
      h (resetBetween.take 9) _ [] rfl
    exact absurd hdelay (by decide)

/-! ## Runs of the proxy -/

namespace TwoSeconds

theorem see (h : self.TwoSeconds) (effect : Effect) : (self.see now id effect).TwoSeconds := by
  cases effect with
  | call call => exact h.handle now id call
  | _ => exact h

theorem update (h : self.TwoSeconds) (connection next : ProxyConnection) :
    (self.update now id connection next).TwoSeconds := by
  unfold Proxy.update
  have hset : ({ self with objects := self.objects.set id next } : Proxy).TwoSeconds :=
    h.congr rfl rfl
  generalize next.effects.drop connection.effects.length = effects
  generalize ({ self with objects := self.objects.set id next } : Proxy) = self' at hset ⊢
  induction effects generalizing self' with
  | nil => exact hset
  | cons effect effects ih => exact ih _ (hset.see effect)

theorem release (h : self.TwoSeconds) : (self.release now id).TwoSeconds := by
  unfold Proxy.release
  split
  · exact h
  · exact h.update _ _

theorem foldl_release (h : self.TwoSeconds) (now : UInt64) (ids : List Nat) :
    (ids.foldl (fun self id => self.release now id) self).TwoSeconds := by
  induction ids generalizing self with
  | nil => exact h
  | cons id ids ih => exact ih h.release

theorem step (h : self.TwoSeconds) (e : ProxyEvent) : (self.step e).TwoSeconds := by
  unfold Proxy.step
  split
  · exact h
  cases e with
  | onIteration env =>
    dsimp only [react]
    split
    · exact h.onIteration env
    · exact h
  | idleCheck now =>
    dsimp only [react, Proxy.idleCheck]
    split_ifs
    · exact h
    · exact h
    · exact (h.foldl_release now (self.connections.drop 1).reverse).congr rfl rfl
    · exact h
  | onStop now =>
    dsimp only [react, Proxy.onStop]
    split
    · have hstopped : ({ self with running := false } : Proxy).TwoSeconds := h.congr rfl rfl
      exact (hstopped.foldl_release now self.connections).congr rfl rfl
    · exact h
  | callback id env event =>
    dsimp only [react, Proxy.callback]
    split
    · exact h
    · exact h.update _ _

end TwoSeconds

/-- In every run of the proxy the delay is 0 or 2 seconds, whatever connections could be opened. -/
theorem run_reconnectDelay (maxConnections : UInt32) (events : List ProxyEvent) :
    ((start maxConnections).run events).reconnectDelay = 0 ∨
      ((start maxConnections).run events).reconnectDelay = 2000 := by
  have h : ((start maxConnections).run events).TwoSeconds := by
    induction events using List.reverseRecOn with
    | nil => exact .inl ⟨rfl, rfl⟩
    | append_singleton events e ih =>
      rw [run_concat]
      exact ih.step e
  exact h.imp_left And.right

end Proxy

end ActiveProxy

end Boson
