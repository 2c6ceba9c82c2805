import Boson.Lib.Transaction
import Boson.PeerStorage
import Boson.ValueStorage

/-!
# Peers that are stored in a transaction (`SqliteStorage::putPeer` of a vector)

`putPeer` begins a transaction, prepares the statement, runs it for each peer and commits. Where the
statement cannot be prepared or fails, it throws, without a `ROLLBACK`. The transaction stays open
then, unless the database rolled it back itself. All other statements of the storage are
transactions of their own.

* `putPeers_atomic_iff`: exactly when all peers are stored, or none and the connection is as before.
* `stranded`: after a call that left its transaction open, no call that begins one succeeds, and
  nothing is committed any more.
-/

namespace Boson

open Transaction

/-- The two tables of the storage. -/
structure Database where
  values : ValueTable := Table.empty
  peers : PeerTable := Table.empty

/-- How the calls of SQLite in `putPeer` end. `COMMIT` is assumed to succeed; its result is not
checked. -/
structure SqliteCalls where
  begins : Bool
  prepares : Bool
  steps : Nat → Transaction.Outcome

namespace SqliteStorage

/-- `UPSERT_PEER` with the values that are bound for a peer. -/
def upsertPeer (now : Nat) (peer : PeerInfo) (db : Database) : Database :=
  { db with peers := db.peers.putPeer now peer false false }

/-- `SqliteStorage::putPeer` of a vector: whether it returns, and the connection after it. -/
def putPeers (c : Connection Database) (calls : SqliteCalls) (now : Nat) (peers : List PeerInfo) :
    Bool × Connection Database :=
  match c.begin calls.begins with
  | none => (false, c)
  | some c =>
    if !calls.prepares then (false, c)
    else
      match Connection.writes (upsertPeer now) calls.steps 0 peers c with
      | (true, c) => (true, c.commit)
      | (false, c) => (false, c)

/-- All peers are stored and no transaction is open; or the call throws, no transaction is open, and
nothing has changed. -/
def Atomic (c : Connection Database) (calls : SqliteCalls) (now : Nat)
    (peers : List PeerInfo) : Prop :=
  putPeers c calls now peers =
      (true, { committed := { c.committed with peers := c.committed.peers.putPeers now peers } }) ∨
    putPeers c calls now peers = (false, c) ∧ c.working = none

theorem foldl_upsertPeer (now : Nat) (peers : List PeerInfo) (db : Database) :
    peers.foldl (fun db peer => upsertPeer now peer db) db =
      { db with peers := db.peers.putPeers now peers } := by
  induction peers generalizing db with
  | nil => rfl
  | cons peer peers ih => exact ih (upsertPeer now peer db)

variable {db : Database} {calls : SqliteCalls} {now : Nat} {peers : List PeerInfo}

/-- The call in a new transaction, by the result of its statements. -/
theorem putPeers_begun (hbegins : calls.begins = true) (hprepares : calls.prepares = true) :
    putPeers { committed := db } calls now peers =
      ((Connection.writes (upsertPeer now) calls.steps 0 peers
        { committed := db, working := some db }).1,
        if (Connection.writes (upsertPeer now) calls.steps 0 peers
          { committed := db, working := some db }).1 then
          (Connection.writes (upsertPeer now) calls.steps 0 peers
            { committed := db, working := some db }).2.commit
        else (Connection.writes (upsertPeer now) calls.steps 0 peers
          { committed := db, working := some db }).2) := by
  simp only [putPeers, Connection.begin, hbegins, Option.isNone_none, Bool.and_self,
    ↓reduceIte, hprepares, Bool.not_true, Bool.false_eq_true]
  split
  · next c heq => simp [heq]
  · next c heq => simp [heq]

/-- The call on a connection without a transaction: it stores all peers, or leaves all as it was, or
throws and leaves its transaction open. -/
theorem putPeers_cases (db : Database) (calls : SqliteCalls) (now : Nat) (peers : List PeerInfo) :
    (calls.begins = true ∧ calls.prepares = true ∧ ∀ k < peers.length, calls.steps k = .done) ∧
        putPeers { committed := db } calls now peers =
          (true, { committed := { db with peers := db.peers.putPeers now peers } }) ∨
      (calls.begins = false ∨ calls.prepares = true ∧
          ∃ k < peers.length, (∀ j < k, calls.steps j = .done) ∧ calls.steps k = .rolledBack) ∧
        putPeers { committed := db } calls now peers = (false, { committed := db }) ∨
      (calls.begins = true ∧ (calls.prepares = false ∨
          ∃ k < peers.length, (∀ j < k, calls.steps j = .done) ∧ calls.steps k = .failed)) ∧
        (putPeers { committed := db } calls now peers).1 = false ∧
          (putPeers { committed := db } calls now peers).2.Pending ∧
            (putPeers { committed := db } calls now peers).2.committed = db := by
  cases hbegins : calls.begins with
  | false => exact .inr (.inl ⟨.inl rfl, by simp [putPeers, Connection.begin, hbegins]⟩)
  | true =>
    cases hprepares : calls.prepares with
    | false =>
      refine .inr (.inr ⟨⟨rfl, .inl rfl⟩, ?_⟩)
      simp [putPeers, Connection.begin, Connection.Pending, hbegins, hprepares]
    | true =>
      rw [putPeers_begun hbegins hprepares]
      obtain hall | ⟨k, hk, hbefore, hfail⟩ := Connection.all_done_or calls.steps peers.length
      · refine .inl ⟨⟨rfl, rfl, hall⟩, ?_⟩
        rw [Connection.writes_ok (i := 0) rfl (by simpa using hall), foldl_upsertPeer]
        rfl
      · obtain ⟨hthrows, hcommitted, hrolled⟩ :=
          Connection.writes_fail (f := upsertPeer now) (i := 0)
          (c := { committed := db, working := some db }) rfl hk (by simpa using hbefore)
            (by simpa using hfail)
        rw [Nat.zero_add] at hrolled
        generalize Connection.writes (upsertPeer now) calls.steps 0 peers
          { committed := db, working := some db } = result at hthrows hcommitted hrolled ⊢
        obtain ⟨returns, db', working⟩ := result
        obtain rfl : returns = false := hthrows
        obtain rfl : db' = db := hcommitted
        cases hk' : calls.steps k with
        | done => exact absurd hk' hfail
        | failed =>
          have hopen : working ≠ none := fun hnone => by simp [hrolled.mp hnone] at hk'
          exact .inr (.inr ⟨⟨rfl, .inr ⟨k, hk, hbefore, hk'⟩⟩, rfl,
            Option.isSome_iff_ne_none.mpr hopen, rfl⟩)
        | rolledBack =>
          obtain rfl : working = none := hrolled.mpr hk'
          exact .inr (.inl ⟨.inr ⟨rfl, k, hk, hbefore, hk'⟩, rfl⟩)

/-- For every connection and every way in which the calls of SQLite end: the list is stored as a
whole or not at all exactly if no transaction is open before and either `BEGIN` fails, or the
statement can be prepared and it is done for all peers, or the first time that it fails the database
rolls the transaction back. -/
theorem putPeers_atomic_iff (c : Connection Database) (calls : SqliteCalls) (now : Nat)
    (peers : List PeerInfo) :
    Atomic c calls now peers ↔ c.working = none ∧
      (calls.begins = false ∨ calls.prepares = true ∧
        ((∀ k < peers.length, calls.steps k = .done) ∨
          ∃ k < peers.length, (∀ j < k, calls.steps j = .done) ∧ calls.steps k = .rolledBack)) := by
  obtain ⟨db, working⟩ := c
  cases working with
  | some w => simp [Atomic, putPeers, Connection.begin]
  | none =>
    obtain ⟨⟨-, hprepares, hall⟩, hresult⟩ | ⟨hcond, hresult⟩ | ⟨⟨hbegins, hcond⟩,
        hthrows, hopen, -⟩ :=
      putPeers_cases db calls now peers
    · exact iff_of_true (.inl hresult) ⟨rfl, .inr ⟨hprepares, .inl hall⟩⟩
    · exact iff_of_true (.inr ⟨hresult, rfl⟩) ⟨rfl, hcond.imp_right fun h => ⟨h.1, .inr h.2⟩⟩
    · refine iff_of_false ?_ ?_
      · rintro (hresult | ⟨hresult, -⟩)
        · simp [hresult] at hthrows
        · simp [hresult, Connection.Pending] at hopen
      · rintro ⟨-, hnot | ⟨hprepares, hsteps⟩⟩
        · simp [hbegins] at hnot
        · obtain hno | ⟨k, hk, hbefore, hfailed⟩ := hcond
          · simp [hprepares] at hno
          · obtain hall | ⟨k', -, hbefore', hrolled⟩ := hsteps
            · simp [hall k hk] at hfailed
            · obtain rfl :=
                Connection.first_unique hbefore (by simp [hfailed]) hbefore' (by simp [hrolled])
              simp [hfailed] at hrolled

/-! ## After a transaction that was left open -/

/-- What is done with the storage later: a list of peers is stored, or another statement is run. -/
inductive Later where
  | putPeers (calls : SqliteCalls) (now : Nat) (peers : List PeerInfo)
  | statement (f : Database → Database) (outcome : Transaction.Outcome)

/-- The connection after it. -/
def later (c : Connection Database) : Later → Connection Database
  | .putPeers calls now peers => (putPeers c calls now peers).2
  | .statement f outcome => (c.write f outcome).2

/-- The database does not roll back the open transaction itself. -/
def Later.leavesOpen : Later → Prop
  | .putPeers .. => True
  | .statement _ outcome => outcome ≠ .rolledBack

theorem putPeers_pending {c : Connection Database} (h : c.Pending) (calls : SqliteCalls) (now : Nat)
    (peers : List PeerInfo) : putPeers c calls now peers = (false, c) := by
  rw [putPeers, Connection.begin_pending h]

/-- A call on a connection without a transaction that is not atomic: it throws and leaves its
transaction open. -/
theorem pending_of_not_atomic (h : ¬ Atomic { committed := db } calls now peers) :
    (putPeers { committed := db } calls now peers).1 = false ∧
      (putPeers { committed := db } calls now peers).2.Pending ∧
        (putPeers { committed := db } calls now peers).2.committed = db := by
  obtain ⟨-, hresult⟩ | ⟨-, hresult⟩ | ⟨-, hthrows⟩ := putPeers_cases db calls now peers
  · exact absurd (.inl hresult) h
  · exact absurd (.inr ⟨hresult, rfl⟩) h
  · exact hthrows

/-- After it, whatever is done with the storage: as long as the database does not roll the
transaction back itself, no list of peers can be stored, and nothing is committed. -/
theorem stranded (h : ¬ Atomic { committed := db } calls now peers) (rest : List Later)
    (hopen : ∀ l ∈ rest, l.leavesOpen) :
    (rest.foldl later (putPeers { committed := db } calls now peers).2).committed = db ∧
      ∀ calls' now' peers',
        (putPeers (rest.foldl later (putPeers { committed := db } calls now peers).2) calls'
        now' peers').1 = false := by
  obtain ⟨-, hpending, hcommitted⟩ := pending_of_not_atomic h
  suffices hrest : (rest.foldl later (putPeers { committed := db } calls now peers).2).Pending ∧
      (rest.foldl later (putPeers { committed := db } calls now peers).2).committed = db by
    exact ⟨hrest.2, fun calls' now' peers' => by rw [putPeers_pending hrest.1]⟩
  induction rest using List.reverseRecOn with
  | nil => exact ⟨hpending, hcommitted⟩
  | append_singleton rest l ih =>
    obtain ⟨hp, hc⟩ := ih fun l' hl' => hopen l' (List.mem_append_left _ hl')
    rw [List.foldl_append, List.foldl_cons, List.foldl_nil]
    cases l with
    | putPeers calls' now' peers' =>
      rw [later, putPeers_pending hp]
      exact ⟨hp, hc⟩
    | statement f outcome =>
      obtain ⟨hp', hc'⟩ :=
        Connection.write_pending hp f (hopen _ (List.mem_append_right _ List.mem_cons_self))
      exact ⟨hp', hc'.trans hc⟩

/-- A peer that another node announced. -/
def strandedPeer : PeerInfo where
  publicKey := Id.MAX_ID
  nodeId := Id.zero
  origin := Id.zero
  port := 8090
  signature := List.replicate 64 42
  port_ok := by decide
  signature_ok := rfl

/-- The statement fails for the first of two peers: the next call throws at `BEGIN`. -/
theorem strandedPeer_not_atomic :
    ¬ Atomic { committed := {} } ⟨true, true, fun _ => .failed⟩ 0 [strandedPeer, strandedPeer] ∧
      (putPeers (putPeers { committed := {} } ⟨true, true, fun _ => .failed⟩ 0
        [strandedPeer, strandedPeer]).2
        ⟨true, true, fun _ => .done⟩ 0 [strandedPeer]).1 = false := by
  refine ⟨?_, rfl⟩
  rintro (h | ⟨h, -⟩)
  · exact absurd (congrArg Prod.fst h) (by decide)
  · exact absurd (congrArg (fun r => r.2.working.isSome) h) (by decide)

end SqliteStorage

end Boson
