import Boson.Task.TaskManager

/-!
# The connection status (`DHT::setStatus`, `DHT::BootstrapStage`)

A DHT tells its listeners how well it is connected. It looks again when the bootstrap gets on: when
the lookup that fills the home bucket has ended, and when the other buckets have been filled or need
not be. The callbacks of `RoutingTable::fillBuckets` come when they come, also in a later round or
after the DHT was stopped.

Of a bootstrap round, only what the status depends on is modelled here: whether one goes on, how
many bootstrap nodes it has (a round without any is never over) and whether its lookup is alive. Of
the routing table, the events have the number of entries and of buckets that are not full; it does
not change while a listener runs.

* `run_status`: the listeners are told each status once and in order; what the end of the lookup and
  what a callback leads to.
* `run_connecting`: a DHT whose round finds nodes before it is given bootstrap nodes is never
  connected.
-/

namespace Boson

/-- `ConnectionStatus`. -/
inductive ConnectionStatus where
  | disconnected
  | connecting
  | connected
  | profound
  deriving DecidableEq, Repr

/-- `CompletionStatus`. -/
inductive CompletionStatus where
  | pending
  | canceled
  | completed
  deriving DecidableEq, Repr

/-- `BootstrapStage::completed`. -/
def CompletionStatus.isCompleted : CompletionStatus → Bool
  | pending => false
  | canceled | completed => true

/-- What is read of the routing table: `getNumBucketEntries`, and the number of buckets that are not
full. -/
structure TableSize where
  entries : Nat
  unfilled : Nat

/-- A `DHT`, as far as its status goes. -/
structure Connectivity where
  running : Bool := false
  status : ConnectionStatus := .disconnected
  /-- The arguments of `statusChanged`, the new and the old status, in the order of the calls. -/
  told : List (ConnectionStatus × ConnectionStatus) := []
  /-- `BootstrapStage::_fillHomeBucket`. -/
  home : CompletionStatus := .pending
  /-- `BootstrapStage::_fillAllBuckets`. -/
  all : CompletionStatus := .pending
  bootstrapNodes : Nat := 0
  bootstrapping : Bool := false
  /-- The number of bootstrap nodes when the last round started. -/
  len : Nat := 0
  /-- The task of `fillHomeBucket` has not ended. -/
  lookup : Bool := false
  /-- The calls of `fillBuckets` whose `completeHandler` was not called. -/
  fills : Nat := 0

namespace Connectivity

variable (self : Connectivity)

/-- `DHT::setStatus`. -/
def setStatus (expected newStatus : ConnectionStatus) : Connectivity :=
  if self.status ≠ expected then self
  else { self with status := newStatus, told := self.told ++ [(newStatus, self.status)] }

/-- `BootstrapStage::updateConnectionStatus`. -/
def updateConnectionStatus (table : TableSize) : Connectivity :=
  if table.entries = 0 then self
  else if self.all.isCompleted then self.setStatus .connected .profound
  else if self.home.isCompleted then self.setStatus .connecting .connected
  else self

/-- `BootstrapStage::fillHomeBucket`. -/
def fillHomeBucket (status : CompletionStatus) (table : TableSize) : Connectivity :=
  if self.home = status then self else { self with home := status }.updateConnectionStatus table

/-- `BootstrapStage::fillAllBuckets`. -/
def fillAllBuckets (status : CompletionStatus) (table : TableSize) : Connectivity :=
  if self.all = status then self else { self with all := status }.updateConnectionStatus table

/-- `BootstrapStage::clearBootstrapStatus`. -/
def clearBootstrapStatus : Connectivity := { self with home := .pending, all := .pending }

/-- `DHT::start`, with the bootstrap nodes that it can use. The table has been loaded. -/
def start (nodes : Nat) (table : TableSize) : Connectivity :=
  if self.running then self
  else
    let self := { self with bootstrapNodes := self.bootstrapNodes + nodes, running := true }
    let self := self.setStatus .disconnected .connecting
    if self.bootstrapNodes ≠ 0 then self
    else (self.fillHomeBucket .canceled table).fillAllBuckets .canceled table

/-- The number of nodes that a round calls. -/
def bns (randomEntries : Nat) : Nat :=
  if self.bootstrapNodes ≠ 0 then self.bootstrapNodes else randomEntries

/-- `DHT::updateBootstrap`, when the last round is long enough ago. -/
def updateBootstrap (randomEntries : Nat) : Connectivity :=
  if !self.running then self
  else if self.bns randomEntries = 0 then self
  else if self.bootstrapping then self
  else { self with bootstrapping := true, len := self.bootstrapNodes }.clearBootstrapStatus

/-- The last call of a round, with `DHT::fillHomeBucket`. `found` is the number of nodes of the
responses. -/
def roundOver (found : Nat) (table : TableSize) : Connectivity :=
  if self.bootstrapping && !self.lookup && self.len != 0 then
    if table.entries = 0 ∧ found = 0 then { self with bootstrapping := false }
    else { self with lookup := true }
  else self

/-- `RoutingTable::fillBuckets`. -/
def fillBuckets (table : TableSize) : Connectivity :=
  if table.unfilled = 0 then self.fillAllBuckets .completed table
  else { self with fills := self.fills + 1 }

/-- The listener of the task of `fillHomeBucket`, in a DHT that is running. -/
def homeFilled (table : TableSize) : Connectivity :=
  let self := self.fillHomeBucket .completed table
  if table.entries > MAX_ENTRIES_PER_BUCKET + 2 then self.fillBuckets table
  else self.fillAllBuckets .canceled table

/-- The listener of the task of `fillHomeBucket`. -/
def homeEnded (table : TableSize) : Connectivity :=
  if !self.lookup then self
  else
    let self := { self with lookup := false, bootstrapping := false }
    if !self.running then self else self.homeFilled table

/-- The `completeHandler` of a call of `fillBuckets`. -/
def filled (table : TableSize) : Connectivity :=
  if self.fills = 0 then self
  else { self with fills := self.fills - 1 }.fillAllBuckets .completed table

/-- What happens to a DHT. -/
inductive Event where
  | start (nodes : Nat) (table : TableSize)
  | stop
  /-- `DHT::bootstrap` adds nodes. -/
  | bootstrap (added : Nat)
  | updateBootstrap (randomEntries : Nat)
  | roundOver (found : Nat) (table : TableSize)
  | homeEnded (table : TableSize)
  | filled (table : TableSize)

/-- One event. -/
def step : Event → Connectivity
  | .start nodes table => self.start nodes table
  | .stop => { self with running := false }
  | .bootstrap added => { self with bootstrapNodes := self.bootstrapNodes + added }
  | .updateBootstrap randomEntries => self.updateBootstrap randomEntries
  | .roundOver found table => self.roundOver found table
  | .homeEnded table => self.homeEnded table
  | .filled table => self.filled table

/-- A sequence of events. -/
def run (events : List Event) : Connectivity := events.foldl step self

end Connectivity

/-! ## What is told -/

/-- What the listeners have been told when this status is reached. -/
def ConnectionStatus.history : ConnectionStatus → List (ConnectionStatus × ConnectionStatus)
  | disconnected => []
  | connecting => [(connecting, disconnected)]
  | connected => [(connecting, disconnected), (connected, connecting)]
  | profound => [(connecting, disconnected), (connected, connecting), (profound, connected)]

/-- The status is `Connected` or `Profound`. -/
def ConnectionStatus.isConnected : ConnectionStatus → Bool
  | disconnected | connecting => false
  | connected | profound => true

namespace Connectivity

variable {s : Connectivity} {table : TableSize}

/-- The listeners were told all statuses up to the present one, in order. -/
def Told (s : Connectivity) : Prop := s.told = s.status.history

/-- The status is set, and told, if it is the expected one. -/
theorem setStatus_eq (h : s.Told) (expected newStatus : ConnectionStatus)
    (hnext : newStatus.history = expected.history ++ [(newStatus, expected)]) :
    s.setStatus expected newStatus =
      let status := if s.status = expected then newStatus else s.status
      { s with status := status, told := status.history } := by
  rw [Told] at h
  unfold setStatus
  by_cases hstatus : s.status = expected
  · dsimp only
    rw [if_neg (not_not.mpr hstatus), if_pos hstatus, h, hstatus, hnext]
  · rw [if_pos hstatus, if_neg hstatus]
    dsimp only
    rw [← h]

/-- The status after the next look. -/
def raised (s : Connectivity) (table : TableSize) : ConnectionStatus :=
  if table.entries = 0 then s.status
  else if s.all.isCompleted then (if s.status = .connected then .profound else s.status)
  else if s.home.isCompleted then (if s.status = .connecting then .connected else s.status)
  else s.status

/-- A look may raise the status, tells so, and changes nothing else. -/
theorem updateConnectionStatus_eq (h : s.Told) :
    s.updateConnectionStatus table =
      { s with status := s.raised table, told := (s.raised table).history } := by
  have hsame : s = { s with status := s.status, told := s.status.history } := by rw [← h]
  rw [updateConnectionStatus, raised]
  by_cases hentries : table.entries = 0
  · rw [if_pos hentries, if_pos hentries]
    exact hsame
  rw [if_neg hentries, if_neg hentries]
  by_cases hall : s.all.isCompleted = true
  · rw [if_pos hall, if_pos hall]
    exact setStatus_eq h _ _ rfl
  rw [if_neg hall, if_neg hall]
  by_cases hhome : s.home.isCompleted = true
  · rw [if_pos hhome, if_pos hhome]
    exact setStatus_eq h _ _ rfl
  · rw [if_neg hhome, if_neg hhome]
    exact hsame

/-- A status is not lost. -/
theorem raised_ge (s : Connectivity) (table : TableSize) :
    s.raised table = s.status ∨ (s.raised table).isConnected = true := by
  unfold raised
  grind [ConnectionStatus.isConnected]

/-- What holds in every state. -/
structure Inv (s : Connectivity) : Prop where
  told : s.Told
  started : s.status = .disconnected →
    s.running = false ∧ s.bootstrapping = false ∧ s.lookup = false ∧ s.fills = 0
  lookup : s.lookup = true → s.bootstrapping = true ∧ s.len ≠ 0
  len : s.len ≤ s.bootstrapNodes
  /-- A callback is awaited only where the lookup has ended with entries in the table. -/
  fills : s.fills ≠ 0 → s.status.isConnected = true
  /-- While a round goes on, only the callback of an earlier one sets `_fillAllBuckets`. -/
  round : s.bootstrapping = true → s.len ≠ 0 →
    s.home = .pending ∧ s.all ≠ .canceled ∧ (s.all = .completed → s.status.isConnected = true)

theorem fillHomeBucket_eq (table : TableSize) (h : s.Told) (st : CompletionStatus) :
    s.fillHomeBucket st table =
    if s.home = st then s else
      { s with
        home := st
        status := raised { s with home := st } table
        told := (raised { s with home := st } table).history } := by
  unfold fillHomeBucket
  split_ifs
  · rfl
  · exact updateConnectionStatus_eq h

theorem fillAllBuckets_eq (h : s.Told) (st : CompletionStatus) : s.fillAllBuckets st table =
    if s.all = st then s else
      { s with
        all := st
        status := raised { s with all := st } table
        told := (raised { s with all := st } table).history } := by
  unfold fillAllBuckets
  split_ifs
  · rfl
  · exact updateConnectionStatus_eq h

theorem Inv.fillHomeBucket (table : TableSize) (h : s.Inv)
    (hidle : s.bootstrapping = true → s.len = 0)
    (hstarted : s.status ≠ .disconnected) (st : CompletionStatus) :
    (s.fillHomeBucket st table).Inv := by
  rw [fillHomeBucket_eq table h.told]
  split_ifs
  · exact h
  · have hge := raised_ge { s with home := st } table
    refine ⟨rfl, ?_, h.lookup, h.len, ?_, ?_⟩
    · grind [ConnectionStatus.isConnected]
    · grind [h.fills]
    · grind

/-- `_fillAllBuckets` is set while no round goes on, or by a callback. -/
theorem Inv.fillAllBuckets (h : s.Inv) {st : CompletionStatus}
    (hidle : s.bootstrapping = true → s.len ≠ 0 → st = .completed ∧ s.status.isConnected = true)
    (hstarted : s.status ≠ .disconnected) : (s.fillAllBuckets st table).Inv := by
  rw [fillAllBuckets_eq h.told]
  split_ifs
  · exact h
  · have hge := raised_ge { s with all := st } table
    refine ⟨rfl, ?_, h.lookup, h.len, ?_, ?_⟩
    · grind [ConnectionStatus.isConnected]
    · grind [h.fills]
    · grind [h.round]

/-- The DHT is between two rounds, the last of which has set `_fillAllBuckets` at most through a
callback. -/
structure Ended (s : Connectivity) : Prop extends Inv s where
  idle : s.bootstrapping = false
  begun : s.status ≠ .disconnected
  homePending : s.home = .pending
  allOpen : s.all ≠ .canceled
  allCompleted : s.all = .completed → s.status.isConnected = true

/-- What is looked at when the home bucket has been filled. -/
theorem Ended.raised_home (table : TableSize) (h : Ended s) (hentries : table.entries ≠ 0) :
    (raised { s with home := .completed } table).isConnected = true ∧
      (s.all = .completed → raised { s with home := .completed } table = .profound) := by
  have hbegun := h.begun
  have hopen := h.allOpen
  have hcompleted := h.allCompleted
  unfold raised
  rw [if_neg hentries]
  cases hall : s.all <;> cases hstatus : s.status <;>
    simp_all [CompletionStatus.isCompleted, ConnectionStatus.isConnected]

/-- When the buckets are filled, or need not be, the last status is reached. -/
theorem status_fillAllBuckets (h : s.Told) (st : CompletionStatus) (hst : st.isCompleted = true)
    (hne : s.all ≠ st) (hconnected : s.status.isConnected = true) (hentries : table.entries ≠ 0) :
    (s.fillAllBuckets st table).status = .profound := by
  rw [fillAllBuckets_eq h, if_neg hne]
  dsimp only [raised]
  rw [if_neg hentries, if_pos hst]
  cases hstatus : s.status <;> simp_all [ConnectionStatus.isConnected]

/-- The end of the lookup of a round, in a DHT that is running. -/
theorem Ended.homeFilled (h : Ended s) : (s.homeFilled table).Inv ∧ (table.entries ≠ 0 →
    (s.homeFilled table).status.isConnected = true ∧
    (table.entries ≤ MAX_ENTRIES_PER_BUCKET + 2 ∨ table.unfilled = 0 →
      (s.homeFilled table).status = .profound)) := by
  have hhome := fillHomeBucket_eq table h.told .completed
  rw [if_neg (by simp [h.homePending])] at hhome
  have hinv := h.toInv.fillHomeBucket table (fun hb => by simp [h.idle] at hb) h.begun .completed
  have hraised := h.raised_home table
  rw [Connectivity.homeFilled, hhome]
  rw [hhome] at hinv
  have hbegun : raised { s with home := .completed } table ≠ .disconnected := by
    intro hd
    have hge := raised_ge { s with home := .completed } table
    rw [hd] at hge
    rcases hge with hge | hge
    · exact h.begun hge.symm
    · cases hge
  split_ifs with hmany
  · have hentries : table.entries ≠ 0 := by omega
    obtain ⟨hconnected, hcompleted⟩ := hraised hentries
    rw [Connectivity.fillBuckets]
    split_ifs with hunfilled
    · refine ⟨hinv.fillAllBuckets (fun hb => by simp [h.idle] at hb) hbegun, fun _ => ?_⟩
      have hprofound : (Connectivity.fillAllBuckets
          { s with
            home := .completed
            status := raised { s with home := .completed } table
            told := (raised { s with home := .completed } table).history } .completed
              table).status = .profound := by
        by_cases hall : s.all = .completed
        · rw [fillAllBuckets_eq hinv.told, if_pos hall]
          exact hcompleted hall
        · exact status_fillAllBuckets hinv.told _ rfl hall hconnected hentries
      exact ⟨by rw [hprofound]; rfl, fun _ => hprofound⟩
    · refine ⟨⟨hinv.told, fun hd => absurd hd hbegun, hinv.lookup, hinv.len, fun _ => hconnected,
        hinv.round⟩, fun _ => ⟨hconnected, fun hfew => ?_⟩⟩
      omega
  · refine ⟨hinv.fillAllBuckets (fun hb => by simp [h.idle] at hb) hbegun, fun hentries => ?_⟩
    have hprofound :=
      status_fillAllBuckets hinv.told .canceled rfl h.allOpen (hraised hentries).1 hentries
    exact ⟨by rw [hprofound]; rfl, fun _ => hprofound⟩

/-- While the lookup of a round is alive, the DHT ends the round in a proper state. -/
theorem Inv.ended (h : s.Inv) (hlookup : s.lookup = true) :
    Ended { s with lookup := false, bootstrapping := false } := by
  obtain ⟨hbootstrapping, hlen⟩ := h.lookup hlookup
  obtain ⟨hhome, hall, hcompleted⟩ := h.round hbootstrapping hlen
  refine ⟨⟨h.told, fun hd => ?_, by simp, h.len, h.fills, by simp⟩, rfl, fun hd => ?_, hhome,
    hall, hcompleted⟩
  · obtain ⟨-, hidle, -⟩ := h.started hd
    rw [hbootstrapping] at hidle
    cases hidle
  · obtain ⟨-, hidle, -⟩ := h.started hd
    rw [hbootstrapping] at hidle
    cases hidle

theorem Inv.homeEnded (h : s.Inv) : (s.homeEnded table).Inv := by
  unfold Connectivity.homeEnded
  split_ifs with hlookup
  · exact h
  · have hended := h.ended (by simpa using hlookup)
    dsimp only
    split_ifs
    · exact hended.toInv
    · exact hended.homeFilled.1

theorem Inv.filled (h : s.Inv) : (s.filled table).Inv := by
  unfold Connectivity.filled
  split_ifs with hfills
  · exact h
  · have hconnected := h.fills hfills
    have hbegun : s.status ≠ .disconnected := by
      intro hd
      rw [hd] at hconnected
      cases hconnected
    have hinv : Inv { s with fills := s.fills - 1 } :=
      ⟨h.told, fun hd => absurd hd hbegun, h.lookup, h.len, fun _ => hconnected, h.round⟩
    exact hinv.fillAllBuckets (fun _ _ => ⟨rfl, hconnected⟩) hbegun

theorem fillHomeBucket_frame (table : TableSize) (h : s.Told) (st : CompletionStatus) :
    (s.fillHomeBucket st table).len = s.len ∧
      (s.status ≠ .disconnected → (s.fillHomeBucket st table).status ≠ .disconnected) := by
  rw [fillHomeBucket_eq table h]
  split_ifs
  · exact ⟨rfl, id⟩
  · refine ⟨rfl, fun hbegun hd => ?_⟩
    have hge := raised_ge { s with home := st } table
    dsimp only at hd
    rw [hd] at hge
    rcases hge with hge | hge
    · exact hbegun hge.symm
    · cases hge

theorem Inv.start (h : s.Inv) (nodes : Nat) : (s.start nodes table).Inv := by
  unfold Connectivity.start
  split_ifs with hrunning
  · exact h
  · have hstatus :=
      setStatus_eq (s :=
        { s with bootstrapNodes := s.bootstrapNodes + nodes, running := true }) h.told
      .disconnected .connecting rfl
    have hbegun : (if s.status = .disconnected then ConnectionStatus.connecting else s.status) ≠
        .disconnected := by
      split_ifs with hd
      · simp
      · exact hd
    have hlen := h.len
    dsimp only at hstatus ⊢
    rw [hstatus]
    have hinv : Inv
        { s with
          bootstrapNodes := s.bootstrapNodes + nodes
          running := true
          status := if s.status = .disconnected then .connecting else s.status
          told := (if s.status = .disconnected then
            ConnectionStatus.connecting else s.status).history } := by
      refine ⟨rfl, fun hd => absurd hd hbegun, h.lookup, by simp only; omega, ?_, ?_⟩
      · grind [h.fills, ConnectionStatus.isConnected]
      · grind [h.round, ConnectionStatus.isConnected]
    by_cases hnodes : s.bootstrapNodes + nodes ≠ 0
    · rw [if_pos hnodes]
      exact hinv
    · -- without bootstrap nodes no round has had any
      have hempty : s.len = 0 := by omega
      rw [if_neg hnodes]
      obtain ⟨hlen', hbegun'⟩ := fillHomeBucket_frame table hinv.told .canceled
      refine (hinv.fillHomeBucket table (fun _ => hempty) hbegun .canceled).fillAllBuckets
        (fun _ hne => ?_) (hbegun' hbegun)
      rw [hlen'] at hne
      exact absurd hempty hne

theorem Inv.updateBootstrap (h : s.Inv) (randomEntries : Nat) :
    (s.updateBootstrap randomEntries).Inv := by
  unfold Connectivity.updateBootstrap
  split_ifs with hrunning hnodes hbootstrapping
  · exact h
  · exact h
  · exact h
  · refine ⟨h.told, fun hd => ?_, fun hlookup => ?_, Nat.le_refl _, h.fills,
      fun _ _ => ⟨rfl, by simp [clearBootstrapStatus], by simp [clearBootstrapStatus]⟩⟩
    · simp [(h.started hd).1] at hrunning
    · exact absurd (h.lookup hlookup).1 hbootstrapping

theorem Inv.roundOver (h : s.Inv) (found : Nat) : (s.roundOver found table).Inv := by
  unfold Connectivity.roundOver
  split_ifs with hround hempty
  · refine ⟨h.told, fun hd => ?_, fun hlookup => ?_, h.len, h.fills, by simp⟩
    · simp [(h.started hd).2.1] at hround
    · simp [show s.lookup = true from hlookup] at hround
  · simp only [Bool.and_eq_true, bne_iff_ne, ne_eq] at hround
    refine ⟨h.told, fun hd => ?_, fun _ => ⟨hround.1.1, hround.2⟩, h.len, h.fills, h.round⟩
    simp [(h.started hd).2.1] at hround
  · exact h

theorem Inv.step (h : s.Inv) (e : Event) : (s.step e).Inv := by
  cases e with
  | start nodes table => exact h.start nodes
  | stop => exact ⟨h.told, fun hd => ⟨rfl, (h.started hd).2⟩, h.lookup, h.len, h.fills, h.round⟩
  | bootstrap added =>
    exact ⟨h.told, h.started, h.lookup, Nat.le_add_right_of_le h.len, h.fills, h.round⟩
  | updateBootstrap randomEntries => exact h.updateBootstrap randomEntries
  | roundOver found table => exact h.roundOver found
  | homeEnded table => exact h.homeEnded
  | filled table => exact h.filled

theorem inv_init : Inv {} where
  told := rfl
  started _ := ⟨rfl, rfl, rfl, rfl⟩
  lookup h := by cases h
  len := Nat.le_refl _
  fills h := absurd rfl h
  round h := by cases h

theorem Inv.run (h : s.Inv) (events : List Event) : (s.run events).Inv := by
  induction events generalizing s with
  | nil => exact h
  | cons e events ih => exact ih (h.step e)

/-! ## What was told stays told -/

theorem told_setStatus (s : Connectivity) (expected newStatus : ConnectionStatus) :
    s.told <+: (s.setStatus expected newStatus).told := by
  unfold setStatus
  split_ifs
  · exact List.prefix_rfl
  · exact List.prefix_append _ _

theorem told_updateConnectionStatus (s : Connectivity) (table : TableSize) :
    s.told <+: (s.updateConnectionStatus table).told := by
  unfold updateConnectionStatus
  split_ifs
  · exact List.prefix_rfl
  · exact told_setStatus s _ _
  · exact told_setStatus s _ _
  · exact List.prefix_rfl

theorem told_fillHomeBucket (s : Connectivity) (st : CompletionStatus) (table : TableSize) :
    s.told <+: (s.fillHomeBucket st table).told := by
  unfold fillHomeBucket
  split_ifs
  · exact List.prefix_rfl
  · exact told_updateConnectionStatus { s with home := st } table

theorem told_fillAllBuckets (s : Connectivity) (st : CompletionStatus) (table : TableSize) :
    s.told <+: (s.fillAllBuckets st table).told := by
  unfold fillAllBuckets
  split_ifs
  · exact List.prefix_rfl
  · exact told_updateConnectionStatus { s with all := st } table

theorem told_homeFilled (s : Connectivity) (table : TableSize) :
    s.told <+: (s.homeFilled table).told := by
  refine (told_fillHomeBucket s .completed table).trans ?_
  unfold homeFilled fillBuckets
  dsimp only
  split_ifs
  · exact told_fillAllBuckets _ _ _
  · exact List.prefix_rfl
  · exact told_fillAllBuckets _ _ _

theorem told_start (s : Connectivity) (nodes : Nat) (table : TableSize) :
    s.told <+: (s.start nodes table).told := by
  unfold start
  split_ifs
  · exact List.prefix_rfl
  · refine (told_setStatus { s with bootstrapNodes := s.bootstrapNodes + nodes, running := true }
      .disconnected .connecting).trans ?_
    dsimp only
    split_ifs
    · exact List.prefix_rfl
    · exact (told_fillHomeBucket _ _ _).trans (told_fillAllBuckets _ _ _)

theorem told_step (s : Connectivity) (e : Event) : s.told <+: (s.step e).told := by
  cases e with
  | start nodes table => exact told_start s nodes table
  | stop | bootstrap => exact List.prefix_rfl
  | updateBootstrap randomEntries =>
    unfold step updateBootstrap
    dsimp only
    split_ifs <;> exact List.prefix_rfl
  | roundOver found table =>
    unfold step roundOver
    dsimp only
    split_ifs <;> exact List.prefix_rfl
  | homeEnded table =>
    unfold step homeEnded
    dsimp only
    split_ifs
    · exact List.prefix_rfl
    · exact List.prefix_rfl
    · exact told_homeFilled { s with lookup := false, bootstrapping := false } table
  | filled table =>
    unfold step filled
    dsimp only
    split_ifs
    · exact List.prefix_rfl
    · exact told_fillAllBuckets { s with fills := s.fills - 1 } _ _

theorem told_run (s : Connectivity) (events : List Event) : s.told <+: (s.run events).told := by
  induction events generalizing s with
  | nil => exact List.prefix_rfl
  | cons e events ih => exact (told_step s e).trans (ih (s.step e))

/-- What a callback of `fillBuckets` leads to. -/
theorem Inv.status_filled (h : s.Inv) (hfills : s.fills ≠ 0) : (s.filled table).status = .profound ↔
    s.status = .profound ∨ table.entries ≠ 0 ∧ s.all ≠ .completed := by
  have hconnected := h.fills hfills
  rw [Connectivity.filled, if_neg hfills]
  by_cases hall : s.all = .completed
  · rw [Connectivity.fillAllBuckets, if_pos hall]
    simp [hall]
  · by_cases hentries : table.entries = 0
    · rw [fillAllBuckets_eq (s := { s with fills := s.fills - 1 }) h.told, if_neg hall]
      simp [raised, hentries]
    · refine iff_of_true ?_ (.inr ⟨hentries, hall⟩)
      exact status_fillAllBuckets (s := { s with fills := s.fills - 1 }) h.told .completed rfl hall
        hconnected hentries

/-- In every run of a DHT: the listeners are told `Connecting`, `Connected` and `Profound`, each at
most once and in this order, and a status is never lost; a lookup for the home bucket that ends in a
running DHT with entries in its table leads to `Connected`, and to `Profound` if there are few of
them or all buckets are full; a callback of `fillBuckets` leads to `Profound`, also after `stop`,
unless the table is empty or another callback came when it was. -/
theorem run_status (events : List Event) :
    let s := run {} events
    s.told = s.status.history ∧
    (∀ later, s.told <+: (s.run later).told) ∧
    (s.running = true → s.lookup = true → ∀ table : TableSize, table.entries ≠ 0 →
      (s.step (.homeEnded table)).status.isConnected = true ∧
      (table.entries ≤ MAX_ENTRIES_PER_BUCKET + 2 ∨ table.unfilled = 0 →
        (s.step (.homeEnded table)).status = .profound)) ∧
    (s.fills ≠ 0 → ∀ table : TableSize, (s.step (.filled table)).status = .profound ↔
      s.status = .profound ∨ table.entries ≠ 0 ∧ s.all ≠ .completed) := by
  intro s
  have hinv : s.Inv := inv_init.run events
  refine ⟨hinv.told, told_run s, fun hrunning hlookup table hentries => ?_,
    fun hfills table => hinv.status_filled hfills⟩
  have hstep :
      s.step (.homeEnded table) =
      { s with lookup := false, bootstrapping := false }.homeFilled table := by
    simp [step, Connectivity.homeEnded, hlookup, hrunning]
  rw [hstep]
  exact (hinv.ended hlookup).homeFilled.2 hentries

/-! ## A round without bootstrap nodes -/

/-- The event is a start. -/
def Event.isStart : Event → Bool
  | .start .. => true
  | _ => false

/-- A DHT that has no bootstrap nodes and had none in its last round. -/
structure Alone (s : Connectivity) : Prop where
  running : s.running = true
  nodes : s.bootstrapNodes = 0
  len : s.len = 0
  lookup : s.lookup = false
  fills : s.fills = 0
  status : s.status = .connecting

/-- A DHT whose round had no bootstrap nodes. -/
structure Stalled (s : Connectivity) : Prop where
  bootstrapping : s.bootstrapping = true
  len : s.len = 0
  lookup : s.lookup = false
  fills : s.fills = 0
  status : s.status = .connecting

/-- The event neither starts nor stops the DHT, nor does it bring bootstrap nodes. -/
def Event.isInner : Event → Bool
  | .start .. | .stop | .bootstrap _ => false
  | _ => true

theorem Alone.step (h : Alone s) {e : Event} (he : e.isInner = true) : Alone (s.step e) := by
  cases e with
  | start | stop | bootstrap => cases he
  | updateBootstrap randomEntries =>
    unfold Connectivity.step updateBootstrap
    dsimp only
    split_ifs
    · exact h
    · exact h
    · exact h
    · exact ⟨h.running, h.nodes, h.nodes, h.lookup, h.fills, h.status⟩
  | roundOver found table => simpa [Connectivity.step, roundOver, h.len] using h
  | homeEnded table => simpa [Connectivity.step, homeEnded, h.lookup] using h
  | filled table => simpa [Connectivity.step, filled, h.fills] using h

/-- As soon as it learns of a node, its round starts. -/
theorem Alone.stalled (h : Alone s) {randomEntries : Nat} (hentries : randomEntries ≠ 0) :
    Stalled (s.step (.updateBootstrap randomEntries)) := by
  have halone := h.step (e := .updateBootstrap randomEntries) rfl
  refine ⟨?_, halone.len, halone.lookup, halone.fills, halone.status⟩
  by_cases hb : s.bootstrapping = true
  · simp [Connectivity.step, updateBootstrap, hb]
  · simp [Connectivity.step, updateBootstrap, hb, h.running, bns, h.nodes, hentries,
      clearBootstrapStatus]

theorem Stalled.step (h : Stalled s) {e : Event} (he : e.isStart = false) : Stalled (s.step e) := by
  cases e with
  | start => cases he
  | stop => exact ⟨h.bootstrapping, h.len, h.lookup, h.fills, h.status⟩
  | bootstrap => exact ⟨h.bootstrapping, h.len, h.lookup, h.fills, h.status⟩
  | updateBootstrap randomEntries =>
    have hsame : s.step (.updateBootstrap randomEntries) = s := by
      simp [Connectivity.step, updateBootstrap, h.bootstrapping]
    rwa [hsame]
  | roundOver found table => simpa [Connectivity.step, roundOver, h.len] using h
  | homeEnded table => simpa [Connectivity.step, homeEnded, h.lookup] using h
  | filled table => simpa [Connectivity.step, filled, h.fills] using h

/-- A DHT that is started without bootstrap nodes and with an empty table, and in which a round
finds entries in the table before it is given bootstrap nodes, is `Connecting` for good, whatever it
learns and is given after that. If it is given one before that round, there is no such round. -/
theorem run_connecting (table : TableSize) (hempty : table.entries = 0) (before : List Event)
    (hbefore : ∀ e ∈ before, e.isInner = true) (randomEntries : Nat) (hentries : randomEntries ≠ 0)
    (after : List Event) (hafter : ∀ e ∈ after, e.isStart = false) :
    (run {} (.start 0 table :: before ++ .updateBootstrap randomEntries :: after)).status =
      .connecting := by
  have hstart : Alone (({} : Connectivity).step (.start 0 table)) := by
    constructor <;>
      simp [step, start, setStatus, fillHomeBucket, fillAllBuckets, updateConnectionStatus, hempty]
  have halone : Alone (run {} (.start 0 table :: before)) := by
    show Alone (before.foldl step (({} : Connectivity).step (.start 0 table)))
    exact List.foldlRecOn before step hstart fun s hs e he => hs.step (hbefore e he)
  have hrun : run {} (.start 0 table :: before ++ .updateBootstrap randomEntries :: after) =
      ((run {} (.start 0 table :: before)).step (.updateBootstrap randomEntries)).run after := by
    simp [run]
  rw [hrun]
  exact (List.foldlRecOn after step (halone.stalled hentries) fun s hs e he =>
    hs.step (hafter e he)).status

/-- Two nodes are found, and a bootstrap node is given later on; its rounds do not start. -/
theorem run_connecting_late :
    (run {} [.start 0 ⟨0, 1⟩, .updateBootstrap 2, .bootstrap 1, .updateBootstrap 2,
      .roundOver 8 ⟨2, 1⟩, .homeEnded ⟨2, 1⟩]).status = .connecting :=
  run_connecting ⟨0, 1⟩ rfl [] (by simp) 2 (by decide)
    [.bootstrap 1, .updateBootstrap 2, .roundOver 8 ⟨2, 1⟩,
    .homeEnded ⟨2, 1⟩] (by simp [Event.isStart])

end Connectivity

end Boson
