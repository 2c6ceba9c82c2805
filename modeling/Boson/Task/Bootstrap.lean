import Boson.Task.Moves

/-!
# Bootstrap rounds

When all calls of a round of `updateBootstrap` have ended, `fillHomeBucket` has been called once,
and when its task has ended too, another round can start: if and only if the DHT had bootstrap nodes
when the round started (`round_completes_iff`). Without any, the calls go to entries of the routing
table, and their number is compared with the number of bootstrap nodes, zero: the round is never
over.

- `Round.Sound`: what the counters of a round say.
- `Ledger.Busy`: why `bootstrapping` is set.
-/

namespace Boson

/-- The counters of a round. It is filled with the last call, if its length is right. -/
structure Round.Sound (r : Round) : Prop where
  count : r.count + r.pending = r.calls
  len : r.len ≠ 0 → r.calls = r.len
  empty : r.len = 0 ∨ r.pending ≠ 0 → r.filled = 0
  filled : r.len ≠ 0 → r.pending = 0 → r.filled = 1

namespace Round.Sound

variable {r : Round} {found : Nat} {task : Option Nat}

theorem start {calls len : Nat} (hcalls : calls ≠ 0) (hlen : len ≠ 0 → calls = len) :
    Round.Sound { calls := calls, pending := calls, len := len } :=
  ⟨by simp, hlen, fun _ => rfl, fun _ h => absurd h hcalls⟩

/-- A call ends that is not the last one. -/
theorem call (h : r.Sound) (hpending : r.pending ≠ 0) (hcount : r.count + 1 ≠ r.len) :
    (r.ended found).Sound := by
  have hsum := h.count
  have hlen := h.len
  refine ⟨?_, h.len, fun _ => h.empty (.inr hpending), fun hne hlast => ?_⟩
  · simp only [ended]
    omega
  · simp only [ended] at hne hlast
    have := hlen hne
    omega

/-- The last call ends. -/
theorem last (h : r.Sound) (hpending : r.pending ≠ 0) (hcount : r.count + 1 = r.len) :
    Round.Sound { r.ended found with filled := r.filled + 1, task := task } := by
  have hsum := h.count
  have hlen := h.len (by omega)
  have hempty := h.empty (.inr hpending)
  refine ⟨?_, h.len, fun hopen => ?_, fun _ _ => by rw [hempty]⟩
  · simp only [ended]
    omega
  · simp only [ended] at hopen
    omega

end Round.Sound

namespace Ledger

variable {canceled : Nat → Prop} {l l' : Ledger} {i : Nat} {t : Task}

/-- The round goes on: a call has not ended, or the task that fills the home bucket. A round of
length zero goes on for ever. -/
def Busy (l : Ledger) (r : Round) : Prop :=
  r.pending ≠ 0 ∨ r.len = 0 ∨
    ∃ (i : Nat) (t : Task), r.task = some i ∧ l.tasks[i]? = some t ∧ t.listener = .homeBucket ∧
      t.state.isTerminal = false

/-- The counters of the rounds, and why `bootstrapping` is set: the last round goes on. -/
structure Bootstrapping (l : Ledger) : Prop where
  sound : ∀ r ∈ l.rounds, r.Sound
  busy : l.bootstrapping = true → ∀ (j : Nat) (r : Round), l.rounds[j]? = some r →
    j + 1 = l.rounds.length → l.Busy r

/-- The task that fills the home bucket goes on, or `bootstrapping` is reset. -/
theorem Move.homeBucket (h : Move canceled l l') (hi : l.tasks[i]? = some t)
    (hlistener : t.listener = .homeBucket) (ht : t.state.isTerminal = false) :
    l'.bootstrapping = false ∨
      ∃ t', l'.tasks[i]? = some t' ∧ t'.listener = .homeBucket ∧ t'.state.isTerminal = false := by
  cases h with
  | home | lastEmpty => exact .inl rfl
  | completes k op u state hk hu hcompletes => grind [Listener.completes]
  | _ => grind

theorem Busy.move {r : Round} (h : l.Busy r) (hmove : Move canceled l l')
    (hbootstrapping : l'.bootstrapping = true) :
    l'.Busy r := by
  obtain hpending | hlen | ⟨i, t, htask, hi, hlistener, ht⟩ := h
  · exact .inl hpending
  · exact .inr (.inl hlen)
  · obtain hreset | ⟨t', hi', hlistener', ht'⟩ := hmove.homeBucket hi hlistener ht
    · simp [hreset] at hbootstrapping
    · exact .inr (.inr ⟨i, t', htask, hi', hlistener', ht'⟩)

namespace Bootstrapping

/-- The rounds stay as they are. -/
theorem same (h : l.Bootstrapping) (hmove : Move canceled l l') (hrounds : l'.rounds = l.rounds)
    (hreset : l'.bootstrapping = true → l.bootstrapping = true) : l'.Bootstrapping := by
  refine ⟨by rw [hrounds]; exact h.sound, fun hb j r hj hlast => ?_⟩
  rw [hrounds] at hj hlast
  exact (h.busy (hreset hb) j r hj hlast).move hmove hb

/-- A round changes. -/
theorem set (h : l.Bootstrapping) (hmove : Move canceled l l') {j : Nat} {r r' : Round}
    (hj : l.rounds[j]? = some r) (hrounds : l'.rounds = l.rounds.set j r') (hsound : r'.Sound)
    (hreset : l'.bootstrapping = true → l.bootstrapping = true ∧ l'.Busy r') :
    l'.Bootstrapping := by
  constructor
  · intro r₀ hr₀
    rw [hrounds] at hr₀
    obtain hmem | rfl := List.mem_or_eq_of_mem_set hr₀
    · exact h.sound r₀ hmem
    · exact hsound
  · intro hb k r₀ hk hlast
    obtain ⟨hb₀, hbusy⟩ := hreset hb
    rw [hrounds] at hk hlast
    rw [List.length_set] at hlast
    by_cases hjk : j = k
    · subst hjk
      have hlt : j < l.rounds.length := (List.getElem?_eq_some_iff.mp hj).1
      rw [List.getElem?_set_self hlt] at hk
      cases hk
      exact hbusy
    · rw [List.getElem?_set_ne hjk] at hk
      exact (h.busy hb₀ k r₀ hk hlast).move hmove hb

theorem move (h : l.Bootstrapping) (hmove : Move canceled l l') : l'.Bootstrapping := by
  have hmove' := hmove
  cases hmove with
  | round calls len hbootstrapping hcalls hlen =>
    refine ⟨fun r hr => ?_, fun _ j r hj hlast => ?_⟩
    · obtain hr | rfl := List.mem_append.mp hr |>.imp_right List.mem_singleton.mp
      · exact h.sound r hr
      · exact .start hcalls hlen
    · obtain rfl : j = l.rounds.length := by simpa using hlast
      obtain rfl : { calls := calls, pending := calls, len := len } = r := by simpa using hj
      exact .inl hcalls
  | call j found r hj hpending hcount =>
    have hsound := h.sound r (List.mem_of_getElem? hj)
    refine h.set hmove' hj rfl (hsound.call hpending hcount) fun hb => ⟨hb, ?_⟩
    by_cases hlast : r.pending - 1 = 0
    · -- all calls have ended, and the length was not reached
      by_cases hlen : r.len = 0
      · exact .inr (.inl hlen)
      · have := hsound.count
        have := hsound.len hlen
        omega
    · exact .inl hlast
  | lastEmpty j found r hj hpending hcount =>
    exact h.set hmove' hj rfl ((h.sound r (List.mem_of_getElem? hj)).last hpending hcount) nofun
  | last j found r hj hpending hcount =>
    refine h.set hmove' hj rfl ((h.sound r (List.mem_of_getElem? hj)).last hpending hcount)
      fun hb => ⟨hb, ?_⟩
    exact .inr (.inr ⟨l.tasks.length, { listener := .homeBucket }, rfl, by simp, rfl, rfl⟩)
  | home => exact h.same hmove' rfl nofun
  | _ => exact h.same hmove' rfl id

end Bootstrapping

/-- The length of a round is the one that it started with. -/
theorem Move.len_eq (h : Move canceled l l') {j : Nat} {r : Round} (hj : l.rounds[j]? = some r) :
    ∃ r', l'.rounds[j]? = some r' ∧ r'.len = r.len := by
  have hlt : j < l.rounds.length := (List.getElem?_eq_some_iff.mp hj).1
  have hset : ∀ {k : Nat} {u u' : Round}, l.rounds[k]? = some u → u'.len = u.len →
      ∃ r', (l.rounds.set k u')[j]? = some r' ∧ r'.len = r.len := by
    intro k u u' hk hu
    by_cases hkj : k = j
    · subst hkj
      obtain rfl : u = r := Option.some_injective _ (hk.symm.trans hj)
      exact ⟨u', List.getElem?_set_self hlt, hu⟩
    · exact ⟨r, by rw [List.getElem?_set_ne hkj, hj], rfl⟩
  cases h with
  | round => exact ⟨r, by rw [List.getElem?_append_left hlt, hj], rfl⟩
  | call k found u hk | lastEmpty k found u hk | last k found u hk => exact hset hk rfl
  | _ => exact ⟨r, hj, rfl⟩

theorem Moves.len_eq (h : Moves canceled l l') {j : Nat} {r : Round} (hj : l.rounds[j]? = some r) :
    ∃ r', l'.rounds[j]? = some r' ∧ r'.len = r.len := by
  refine h.keep (P := fun l' => ∃ r', l'.rounds[j]? = some r' ∧ r'.len = r.len)
    (fun l₁ l₂ hl hmove => ?_) ⟨r, hj, rfl⟩
  obtain ⟨r₁, hj₁, hlen₁⟩ := hl
  obtain ⟨r₂, hj₂, hlen₂⟩ := hmove.len_eq hj₁
  exact ⟨r₂, hj₂, hlen₂.trans hlen₁⟩

end Ledger

namespace Tasks

open Ledger

theorem run_bootstrapping (n : Nat) (events : List Event) :
    ((init n).run events).ledger.Bootstrapping := by
  induction events using List.reverseRecOn with
  | nil => exact ⟨nofun, nofun⟩
  | append_singleton events e ih =>
    rw [run_concat]
    exact (step_moves _ e (run_linked n events)).keep (fun _ _ => Bootstrapping.move) ih

/-- A round that starts has the number of bootstrap nodes as its length. -/
theorem updateBootstrap_start {s : Tasks} {now : UInt64} (hidle : s.bootstrapping = false)
    (hstart : (s.step (.updateBootstrap now)).bootstrapping = true) :
    ∃ r, (s.step (.updateBootstrap now)).rounds[s.rounds.length]? = some r ∧
      r.len = s.bootstrapNodes := by
  unfold step at hstart ⊢
  split_ifs at hstart ⊢ with hstuck
  · simp [hidle] at hstart
  · dsimp only [react] at hstart ⊢
    unfold updateBootstrap at hstart ⊢
    split_ifs at hstart ⊢
    · simp [hidle] at hstart
    · simp [hidle] at hstart
    · simp [hidle] at hstart
    · exact ⟨_, List.getElem?_concat_length, rfl⟩

theorem run_len_eq (n : Nat) (pre post : List Event) {j : Nat} {r : Round}
    (hj : ((init n).run pre).rounds[j]? = some r) :
    ∃ r', ((init n).run (pre ++ post)).rounds[j]? = some r' ∧ r'.len = r.len := by
  induction post using List.reverseRecOn with
  | nil => exact ⟨r, by rw [List.append_nil, hj], rfl⟩
  | append_singleton post e ih =>
    obtain ⟨r₁, hj₁, hlen₁⟩ := ih
    obtain ⟨r₂, hj₂, hlen₂⟩ := (step_moves _ e (run_linked n (pre ++ post))).len_eq hj₁
    exact ⟨r₂, by rw [← List.append_assoc, run_concat]; exact hj₂, hlen₂.trans hlen₁⟩

/-- The round `j` came to its end: the home bucket was filled once, and if no other round has
started, `bootstrapping` is reset as soon as the task has ended. -/
def Completes (s : Tasks) (j : Nat) (r : Round) : Prop :=
  r.filled = 1 ∧
    (j + 1 = s.rounds.length → (∀ i, r.task = some i → (s.stateOf i).isTerminal = true) →
      s.bootstrapping = false)

/-- A round all calls of which have ended comes to its end if and only if there were bootstrap nodes
when it started. -/
theorem round_completes_iff (n : Nat) (pre post : List Event) (now : UInt64) (r : Round)
    (hidle : ((init n).run pre).bootstrapping = false)
    (hstart : ((init n).run (pre ++ [.updateBootstrap now])).bootstrapping = true)
    (hround : ((init n).run (pre ++ .updateBootstrap now ::
    post)).rounds[((init n).run pre).rounds.length]? = some r) (hended : r.pending = 0) :
    ((init n).run (pre ++ .updateBootstrap now :: post)).Completes
    ((init n).run pre).rounds.length r ↔
      ((init n).run pre).bootstrapNodes ≠ 0 := by
  have hrun := run_bootstrapping n (pre ++ .updateBootstrap now :: post)
  have hsound : r.Sound := hrun.sound r (List.mem_of_getElem? hround)
  have hlen : r.len = ((init n).run pre).bootstrapNodes := by
    rw [run_concat] at hstart
    obtain ⟨r₀, hj₀, hlen₀⟩ := updateBootstrap_start hidle hstart
    rw [← run_concat] at hj₀
    obtain ⟨r₁, hj₁, hlen₁⟩ := run_len_eq n _ post hj₀
    rw [List.append_assoc, List.singleton_append, hround] at hj₁
    cases hj₁
    exact hlen₁.trans hlen₀
  rw [← hlen]
  constructor
  · rintro ⟨hfilled, -⟩ hzero
    simp [hsound.empty (.inl hzero)] at hfilled
  · intro hne
    refine ⟨hsound.filled hne hended, fun hlast htask => ?_⟩
    by_contra hb
    obtain hpending | hzero | ⟨i, t, hi, htasks, -, ht⟩ :=
      hrun.busy (Bool.eq_true_of_not_eq_false hb) _ r hround hlast
    · exact hpending hended
    · exact hne hzero
    · have hterminal := htask i hi
      rw [stateOf_eq htasks, ht] at hterminal
      cases hterminal

/-- A round with two bootstrap nodes. -/
theorem two_nodes_complete :
    ((init 2).run [.updateBootstrap 240000, .bootstrapCall 0 0 240001,
      .bootstrapCall 0 3 240002]).Completes 0
      { calls := 2, pending := 0, len := 2, count := 2, nodes := 3, filled := 1, task := some 0 } :=
  (round_completes_iff 2 [] [.bootstrapCall 0 0 240001, .bootstrapCall 0 3 240002] 240000 _ rfl
    (by decide +kernel) (by decide +kernel) rfl).mpr (by decide)

/-- No bootstrap nodes, and one entry in the routing table: its call ends, and nothing follows. -/
theorem one_entry_not_completes :
    ¬ ∀ (n : Nat) (pre post : List Event) (now : UInt64) (r : Round),
      ((init n).run pre).bootstrapping = false →
      ((init n).run (pre ++ [.updateBootstrap now])).bootstrapping = true →
      ((init n).run (pre ++ .updateBootstrap now :: post)).rounds[((init n).run pre).rounds.length]?
      = some r → r.pending = 0 →
      ((init n).run (pre ++ .updateBootstrap now :: post)).Completes
      ((init n).run pre).rounds.length r := by
  intro h
  obtain ⟨hfilled, -⟩ := h 0 [.table [1]] [.bootstrapCall 0 3 240001] 240000
    { calls := 1, pending := 0, len := 0, count := 1, nodes := 3 } rfl (by decide +kernel)
      (by decide +kernel) rfl
  exact absurd hfilled (by decide)

end Tasks

end Boson
