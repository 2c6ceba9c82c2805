import Boson.Lib.Counts
import Boson.Node.Callbacks

/-!
# Errors between two nodes

Two nodes exchange messages, which may be lost or overtake each other. In between, jobs and users
start what they want. An error that arrives is not answered with another one, so that errors come
only from requests and responses.

* `errors_bounded`: while an error is handled, no error is sent; and of two nodes, no more errors
  arrive than were on their way at the start, and two for each request or response that arrives.
-/

namespace Boson

/-- One of the two nodes. -/
inductive Side where
  | left
  | right
  deriving DecidableEq

/-- Two nodes and the messages that are on their way to them. `errors` and `others` count the
errors, and the requests and responses, that have arrived. -/
structure Exchange where
  node : Side → Node
  addr : Side → SocketAddress
  flight : List (Side × Message) := []
  errors : Nat := 0
  others : Nat := 0

/-- What may happen. -/
inductive ExchangeEvent where
  /-- A message arrives. -/
  | deliver (i : Nat) (f : Callback)
  /-- A message is lost. -/
  | lose (i : Nat)
  /-- A job of the scheduler runs. -/
  | job (side : Side) (f : Callback)
  /-- A user calls an operation of a node. -/
  | call (side : Side) (f : Callback)

namespace Exchange

variable (C : Crypto) (R : RandomOrder) (P : Printer) (target : Side → Nat → Id)

/-- Who has the address, if it is one of the two. -/
def recipient (self : Exchange) (addr : SocketAddress) : Option Side :=
  if addr = self.addr .left then some .left else if addr = self.addr .right then
    some .right else none

/-- What one of them sent, on its way to one of them. -/
def posted (self : Exchange) (side : Side) (out : List Outgoing) : List (Side × Message) :=
  out.filterMap fun o =>
    (self.recipient o.remote).map fun receiver => (receiver,
      { o.message with origin := self.addr side })

/-- A node has been at work: what it sent is on its way. -/
def put (self : Exchange) (side : Side) (node : Node) : Exchange :=
  { self with
    node := fun s => if s = side then node else self.node s
    flight := self.flight ++ self.posted side (node.sent.drop (self.node side).sent.length) }

/-- Code that runs in the receive loop of a node. An exception ends the loop. -/
def onLoop (self : Exchange) (side : Side) (f : Node → Processed) : Exchange :=
  let node := self.node side
  if !node.server.rx then self
  else
    let r := f node
    self.put side { r.node with server := { r.node.server with rx := !r.threw } }

def step (self : Exchange) : ExchangeEvent → Exchange
  | .deliver i f =>
    match self.flight[i]? with
    | none => self
    | some (side, msg) =>
      let self := { self with flight := self.flight.eraseIdx i }
      let self := if msg.getType = .err then { self with errors := self.errors + 1 }
        else { self with others := self.others + 1 }
      self.onLoop side fun node => node.tracedPacket C R P (target side) msg f
  | .lose i => { self with flight := self.flight.eraseIdx i }
  | .job side f => self.onLoop side (Node.execute f)
  | .call side f => self.put side (Node.execute f (self.node side)).node

def run (self : Exchange) (events : List ExchangeEvent) : Exchange :=
  events.foldl (step C R P target) self

/-- The errors that are on their way. -/
def errorsOnWay (self : Exchange) : Nat := self.flight.countP fun m => m.2.getType = .err

variable {C R P target} {self : Exchange} {side : Side}

theorem countP_posted_le (self : Exchange) (side : Side) (out : List Outgoing) :
    (self.posted side out).countP (fun m => m.2.getType = .err) ≤ out.countP Outgoing.isError := by
  unfold posted
  rw [List.countP_filterMap]
  refine List.countP_mono_left fun o _ ho => ?_
  cases hreceiver : self.recipient o.remote with
  | none => simp [hreceiver] at ho
  | some receiver =>
    simp only [hreceiver, Option.map_some, Option.getD_some, decide_eq_true_eq] at ho
    exact decide_eq_true ho

/-- What a node sends adds the errors in it to those on their way. -/
theorem put_errorsOnWay {n : Nat} {node : Node} (h : SendsErrors n (self.node side) node) :
    (self.put side node).errorsOnWay ≤ self.errorsOnWay + n := by
  obtain ⟨out, hout, hn⟩ := h
  unfold put errorsOnWay
  dsimp only
  rw [List.countP_append, hout, List.drop_left]
  exact Nat.add_le_add_left ((countP_posted_le self side out).trans hn) _

theorem onLoop_errorsOnWay {n : Nat} {f : Node → Processed}
    (h : ∀ node, SendsErrors n node (f node).node) (self : Exchange) (side : Side) :
    (self.onLoop side f).errorsOnWay ≤ self.errorsOnWay + n := by
  unfold onLoop
  dsimp only
  split_ifs
  · exact Nat.le_add_right _ _
  · obtain ⟨out, hout, hn⟩ := h (self.node side)
    exact put_errorsOnWay ⟨out, hout, hn⟩

@[simp] theorem onLoop_errors (self : Exchange) (side : Side) (f : Node → Processed) :
    (self.onLoop side f).errors = self.errors := by
  unfold onLoop
  dsimp only
  split_ifs <;> rfl

@[simp] theorem onLoop_others (self : Exchange) (side : Side) (f : Node → Processed) :
    (self.onLoop side f).others = self.others := by
  unfold onLoop
  dsimp only
  split_ifs <;> rfl

/-- A message that arrives is on its way no longer. -/
theorem eraseIdx_errorsOnWay {i : Nat} {m : Side × Message} (hi : self.flight[i]? = some m) :
    (self.flight.eraseIdx i).countP (fun m => m.2.getType = .err) +
    (if m.2.getType = .err then 1 else 0) =
      self.errorsOnWay := by
  rw [errorsOnWay, ← Counts.countP_eraseIdx hi]
  by_cases h : m.2.getType = .err <;> simp [h]

/-- An event takes an error that arrives off the way, and puts two new ones there at most, for a
request or a response that arrives. -/
theorem step_errorsOnWay (C : Crypto) (R : RandomOrder) (P : Printer) (target : Side → Nat → Id)
    (self : Exchange) (e : ExchangeEvent) :
    (self.step C R P target e).errorsOnWay + (self.step C R P target e).errors + 2 * self.others ≤
      self.errorsOnWay + self.errors + 2 * (self.step C R P target e).others := by
  cases e with
  | deliver i f =>
    unfold step
    dsimp only
    split
    · exact Nat.le_refl _
    · next side msg hi =>
      have htaken := eraseIdx_errorsOnWay hi
      have hbudget := fun node => Node.sendsErrors_tracedPacket C R P (target side) node msg f
      dsimp only at htaken
      split_ifs with herr
      · have hsent := onLoop_errorsOnWay hbudget
          { self with flight := self.flight.eraseIdx i, errors := self.errors + 1 } side
        rw [if_pos herr] at htaken
        rw [Node.errorBudget, if_pos herr] at hsent
        rw [onLoop_errors, onLoop_others]
        unfold errorsOnWay at hsent htaken ⊢
        dsimp only at hsent ⊢
        omega
      · have hsent := onLoop_errorsOnWay hbudget
          { self with flight := self.flight.eraseIdx i, others := self.others + 1 } side
        rw [if_neg herr] at htaken
        rw [Node.errorBudget, if_neg herr] at hsent
        rw [onLoop_errors, onLoop_others]
        unfold errorsOnWay at hsent htaken ⊢
        dsimp only at hsent ⊢
        omega
  | lose i =>
    have hlost : (self.step C R P target (.lose i)).errorsOnWay ≤ self.errorsOnWay :=
      (List.eraseIdx_sublist ..).countP_le
    change _ + self.errors + 2 * self.others ≤ _ + self.errors + 2 * self.others
    omega
  | job side f =>
    have hsent := onLoop_errorsOnWay (Node.sendsErrors_execute f) self side
    unfold step
    dsimp only
    rw [onLoop_errors, onLoop_others]
    omega
  | call side f =>
    have hsent := put_errorsOnWay (Node.sendsErrors_execute f (self.node side))
    change _ + self.errors + 2 * self.others ≤ _ + self.errors + 2 * self.others
    exact Nat.add_le_add_right (Nat.add_le_add_right hsent _) _

theorem run_errorsOnWay (C : Crypto) (R : RandomOrder) (P : Printer) (target : Side → Nat → Id)
    (self : Exchange) (events : List ExchangeEvent) :
    (self.run C R P target events).errorsOnWay + (self.run C R P target events).errors +
        2 * self.others ≤
      self.errorsOnWay + self.errors + 2 * (self.run C R P target events).others := by
  induction events generalizing self with
  | nil => exact Nat.le_refl _
  | cons e events ih =>
    have hstep := step_errorsOnWay C R P target self e
    have hrest := ih (self.step C R P target e)
    rw [run, List.foldl_cons]
    unfold run at hrest
    omega

/-- While an error is handled, from any state of a node and whatever the handlers and tasks do, no
error is sent. Two nodes do not go on exchanging errors: no more of them arrive than were on their
way at the start, and two for each request or response that arrives. -/
theorem errors_bounded (C : Crypto) (R : RandomOrder) (P : Printer) (target : Side → Nat → Id) :
    (∀ (side : Side) (node : Node) (msg : Message) (f : Callback), msg.getType = .err →
      ∃ out, (node.tracedPacket C R P (target side) msg f).node.sent = node.sent ++ out ∧
        ∀ o ∈ out, o.message.getType ≠ .err) ∧
      ∀ (node : Side → Node) (addr : Side → SocketAddress) (flight : List (Side × Message))
        (events : List ExchangeEvent),
        (run C R P target { node := node, addr := addr, flight := flight } events).errors ≤
          flight.countP (fun m => m.2.getType = .err) +
            2 * (run C R P target { node := node, addr := addr, flight := flight }
              events).others := by
  refine ⟨fun side node msg f herr => ?_, fun node addr flight events => ?_⟩
  · obtain ⟨out, hout, hn⟩ := Node.sendsErrors_tracedPacket C R P (target side) node msg f
    rw [Node.errorBudget, if_pos herr] at hn
    refine ⟨out, hout, fun o ho => ?_⟩
    have hnone := List.countP_eq_zero.mp (Nat.le_zero.mp hn) o ho
    simpa [Outgoing.isError] using hnone
  · have hrun := run_errorsOnWay C R P target
      { node := node, addr := addr, flight := flight } events
    unfold errorsOnWay at hrun
    dsimp only at hrun
    omega

/-- An error that answers no call arrives at a node: its sender is pinged, and gets no error. -/
theorem unmatched_error_unanswered :
    ∃ out, (Node.tracedPacket ⟨fun _ => Id.zero, fun _ _ _ => false, id⟩
      ⟨fun rows => rows, fun _ => .rfl⟩
        ⟨Id.bytes, SocketAddress.raw⟩ (fun _ => Id.zero) Node.inetNode
        (Node.inetRequest (.errorMessage .ping PROTOCOL_ERROR [])) .done).node.sent = out ∧
      ∀ o ∈ out, o.message.getType ≠ .err :=
  (errors_bounded _ _ _ fun _ _ => Id.zero).1 .left Node.inetNode
    (Node.inetRequest (.errorMessage .ping PROTOCOL_ERROR [])) .done rfl

end Exchange

end Boson
