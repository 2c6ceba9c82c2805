import Boson.Lib.Loop
import Boson.Message.Print
import Boson.Message.Serialize
import Boson.Rpc.Statistics
import Mathlib.Data.List.Perm.Basic

/-!
# The queue of unsent messages (`RPCServer::sendData`, `RPCServer::periodic`)

A message whose `sendto` would block goes to the back of `messageQueue`. `periodic` empties the
queue before it runs the scheduler: it hands the first message to `sendData` until there is none.

* `attempt_messageQueue`: what an attempt does to the queue.
* `rounds_perm`: no message is lost or sent twice, however long the loop runs.
* `drains_iff`: when the loop makes no more attempts than there are messages.
* `blocked_endless`: while every `sendto` would block, the loop does not end.
-/

namespace Boson

open FoldM

/-- `EAGAIN`. -/
def EAGAIN : Int32 := 11

/-- What `sendto` returns, and the `errno` that it leaves. -/
structure SendTo where
  ret : Int32
  errno : Int32
  deriving DecidableEq

/-- The message was not sent and may be tried again. -/
def SendTo.Blocks (self : SendTo) : Prop := self.ret = 0 ∨ (self.ret = -1 ∧ self.errno = EAGAIN)

instance : DecidablePred SendTo.Blocks :=
  fun self => inferInstanceAs (Decidable (self.ret = 0 ∨ (self.ret = -1 ∧ self.errno = EAGAIN)))

/-- A message with `getRemoteId` and `getRemoteAddress`. -/
structure Addressed extends Message where
  remoteId : Id
  remoteAddr : SocketAddress

/-- `RPCServer`, the part that sends. A socket that is not open is negative. -/
structure Sender where
  sock4 : Int32
  sock6 : Int32
  stats : SentStatistics := {}
  messageQueue : List Addressed := []

/-- What `sendData` calls: the CBOR encoder of `serialize`, and `node.encrypt`, of which `none` is
an exception. -/
structure Encoder where
  toCbor : Json → List UInt8
  encrypt : Id → List UInt8 → Option (List UInt8)

namespace Sender

variable (W : Encoder) (P : Printer) (B : Build)

/-- The socket for the family of an address. -/
def sockfd (self : Sender) (remoteAddr : SocketAddress) : Except Fault Int32 :=
  match remoteAddr.family with
  | .inet => .ok self.sock4
  | .inet6 => .ok self.sock6
  | .unspec => .error (.exception "Unsupported address family!")

/-- `RPCServer::sendData` before `sendto`: the socket and the buffer. -/
def packet (self : Sender) (msg : Addressed) : Except Fault (Int32 × List UInt8) := do
  if !msg.remoteAddr.isValid then
    throw (.exception "Remote address is invalid, need to be specified!")
  let sockfd ← self.sockfd msg.remoteAddr
  if sockfd < 0 then
    throw (.exception "Socket fd is error!!!")
  let buffer ← W.toCbor <$> msg.toMessage.serialize
  match W.encrypt msg.remoteId buffer with
  | none => throw (.exception "encrypt")
  | some encrypted => return (sockfd, msg.id.bytes ++ encrypted)

/-- `RPCServer::sendData` after a message was sent: the counters, and the arguments of
`log->debug`. -/
def onSent (self : Sender) (msg : Addressed) (buffer : List UInt8) : Sender × Except Fault Int32 :=
  match (self.stats.onSentBytes (UInt32.ofNat buffer.length)).onSentMessage msg.toMessage with
  | .error fault => (self, .error fault)
  | .ok stats => ({ self with stats := stats }, (fun _ => 0) <$> msg.toMessage.toString P B)

/-- `RPCServer::sendData`, with what `sendto` does. -/
def sendData (self : Sender) (msg : Addressed) (sendto : SendTo) : Sender × Except Fault Int32 :=
  match self.packet W msg with
  | .error fault => (self, .error fault)
  | .ok (_, buffer) =>
    if sendto.Blocks then ({ self with messageQueue := self.messageQueue ++ [msg] }, .ok EAGAIN)
    else if sendto.ret = -1 then (self, .ok sendto.errno)
    else self.onSent P B msg buffer

end Sender

/-- The loop of `periodic`: the attempts that were made with their outcomes, and what was thrown. -/
structure Drain where
  server : Sender
  attempts : List (Addressed × SendTo) := []
  thrown : Option Fault := none

namespace Drain

variable (W : Encoder) (P : Printer) (B : Build) (outcomes : Nat → SendTo)

/-- The attempt with the message that is at the front. -/
def attempt (self : Drain) (msg : Addressed) (rest : List Addressed) : Drain :=
  let sendto := outcomes self.attempts.length
  let sent := { self.server with messageQueue := rest }.sendData W P B msg sendto
  { server := sent.1
    attempts := self.attempts ++ [(msg, sendto)]
    thrown := match sent.2 with
      | .ok _ => none
      | .error fault => some fault }

/-- A round of the loop of `RPCServer::periodic`. It ends when the queue is empty, or with an
exception. -/
def next (self : Drain) : Option Drain :=
  match self.thrown, self.server.messageQueue with
  | none, msg :: rest => some (self.attempt W P B outcomes msg rest)
  | _, _ => none

/-- The messages of the attempts. -/
def tried (self : Drain) : List Addressed := self.attempts.map (·.1)

/-- The messages of the attempts that would not have blocked. -/
def done (self : Drain) : List Addressed := (self.attempts.filter fun a => ¬ a.2.Blocks).map (·.1)

/-- The messages of the attempts that would have blocked. -/
def blocked (self : Drain) : List Addressed := (self.attempts.filter fun a => a.2.Blocks).map (·.1)

end Drain

namespace Sender

/-- A message that `sendData` hands to `sendto`. -/
structure Sendable (W : Encoder) (server : Sender) (msg : Addressed) : Prop where
  addressed : msg.remoteAddr.isValid = true
  socket : ∃ fd, server.sockfd msg.remoteAddr = .ok fd ∧ ¬ fd < 0
  encoded : ∃ json, msg.toMessage.serialize = .ok json ∧
    ∃ encrypted, W.encrypt msg.remoteId (W.toCbor json) = some encrypted

/-- `sendData` is done with a message, without an exception. -/
structure Goes (W : Encoder) (B : Build) (server : Sender) (msg : Addressed)
    (sendto : SendTo) : Prop where
  sendable : server.Sendable W msg
  unblocked : ¬ sendto.Blocks
  printed : sendto.ret ≠ -1 → msg.content.printable B

variable {W : Encoder} {P : Printer} {B : Build} {self : Sender} {msg : Addressed} {sendto : SendTo}

theorem packet_ok_iff : (∃ packet, self.packet W msg = .ok packet) ↔ self.Sendable W msg := by
  unfold packet
  constructor
  · rintro ⟨packet, h⟩
    cases haddr : msg.remoteAddr.isValid with
    | false => simp [haddr, throw, throwThe, MonadExceptOf.throw, Bind.bind, Except.bind] at h
    | true =>
      simp only [haddr, Bool.not_true, Bool.false_eq_true, if_false, bind_eq_ok_iff] at h
      obtain ⟨fd, hfd, h⟩ := h
      by_cases hneg : fd < 0
      · simp [hneg, throw, throwThe, MonadExceptOf.throw, Bind.bind, Except.bind] at h
      · simp only [hneg, if_false, bind_eq_ok_iff, map_eq_ok_iff] at h
        obtain ⟨_, ⟨json, hjson, rfl⟩, h⟩ := h
        refine ⟨haddr, ⟨fd, hfd, hneg⟩, json, hjson, ?_⟩
        cases hencrypt : W.encrypt msg.remoteId (W.toCbor json) with
        | none => simp [hencrypt, throw, throwThe, MonadExceptOf.throw] at h
        | some encrypted => exact ⟨encrypted, rfl⟩
  · rintro ⟨haddr, ⟨fd, hfd, hneg⟩, json, hjson, encrypted, hencrypt⟩
    refine ⟨(fd, msg.id.bytes ++ encrypted), ?_⟩
    simp [haddr, hfd, hneg, hjson, hencrypt, Bind.bind, Except.bind, pure, Except.pure]

theorem onSent_ok_iff (buffer : List UInt8) :
    (∃ ret, (self.onSent P B msg buffer).2 = .ok ret) ↔ msg.content.printable B := by
  obtain ⟨counters, hcounters⟩ :=
    countMessage_ok (self.stats.onSentBytes (UInt32.ofNat buffer.length)).sentMessages msg.toMessage
  simp only [onSent, SentStatistics.onSentMessage, hcounters, Functor.map, Except.map]
  rw [← toString_ok_iff (P := P) msg.toMessage]
  cases msg.toMessage.toString P B with
  | error fault => simp
  | ok text => simp

/-- The sockets stay as they are, and so does what can be sent. -/
theorem sendable_congr {after : Sender} (h4 : after.sock4 = self.sock4)
    (h6 : after.sock6 = self.sock6) :
    after.Sendable W msg ↔ self.Sendable W msg := by
  have hsock : after.sockfd = self.sockfd := by
    funext remoteAddr
    rw [sockfd, sockfd, h4, h6]
  constructor
  · intro h
    exact ⟨h.addressed, hsock ▸ h.socket, h.encoded⟩
  · intro h
    exact ⟨h.addressed, hsock ▸ h.socket, h.encoded⟩

theorem goes_congr {after : Sender} (h4 : after.sock4 = self.sock4)
    (h6 : after.sock6 = self.sock6) :
    after.Goes W B msg sendto ↔ self.Goes W B msg sendto := by
  constructor
  · intro h
    exact ⟨(sendable_congr h4 h6).mp h.sendable, h.unblocked, h.printed⟩
  · intro h
    exact ⟨(sendable_congr h4 h6).mpr h.sendable, h.unblocked, h.printed⟩

@[simp] theorem onSent_sock4 (buffer : List UInt8) :
    (self.onSent P B msg buffer).1.sock4 = self.sock4 := by
  unfold onSent
  split <;> rfl

@[simp] theorem onSent_sock6 (buffer : List UInt8) :
    (self.onSent P B msg buffer).1.sock6 = self.sock6 := by
  unfold onSent
  split <;> rfl

@[simp] theorem onSent_messageQueue (buffer : List UInt8) :
    (self.onSent P B msg buffer).1.messageQueue = self.messageQueue := by
  unfold onSent
  split <;> rfl

@[simp] theorem sendData_sock4 : (self.sendData W P B msg sendto).1.sock4 = self.sock4 := by
  unfold sendData
  split
  · rfl
  · split_ifs
    · rfl
    · rfl
    · exact onSent_sock4 _

@[simp] theorem sendData_sock6 : (self.sendData W P B msg sendto).1.sock6 = self.sock6 := by
  unfold sendData
  split
  · rfl
  · split_ifs
    · rfl
    · rfl
    · exact onSent_sock6 _

/-- A message that would block is put back, once. -/
theorem sendData_messageQueue {ret : Int32} (h : (self.sendData W P B msg sendto).2 = .ok ret) :
    (self.sendData W P B msg sendto).1.messageQueue =
      if sendto.Blocks then self.messageQueue ++ [msg] else self.messageQueue := by
  unfold sendData at h ⊢
  cases hpacket : self.packet W msg with
  | error fault => simp [hpacket] at h
  | ok packet =>
    dsimp only
    split_ifs
    · rfl
    · rfl
    · exact onSent_messageQueue packet.2

/-- No message gets in front of the others. -/
theorem prefix_sendData (self : Sender) : self.messageQueue <+:
    (self.sendData W P B msg sendto).1.messageQueue := by
  unfold sendData
  split
  · exact List.prefix_rfl
  · split_ifs
    · exact List.prefix_append ..
    · exact List.prefix_rfl
    · exact ⟨[], by rw [onSent_messageQueue, List.append_nil]⟩

theorem sendData_blocked (hsend : self.Sendable W msg) (hblocks : sendto.Blocks) :
    (self.sendData W P B msg sendto).2 = .ok EAGAIN := by
  obtain ⟨packet, hpacket⟩ := packet_ok_iff.mpr hsend
  rw [sendData, hpacket]
  dsimp only
  rw [if_pos hblocks]

theorem goes_iff :
    self.Goes W B msg sendto ↔
      (∃ ret, (self.sendData W P B msg sendto).2 = .ok ret) ∧ ¬ sendto.Blocks := by
  unfold sendData
  cases hpacket : self.packet W msg with
  | error fault =>
    refine iff_of_false (fun h => ?_) (by simp)
    obtain ⟨packet, hok⟩ := packet_ok_iff.mpr h.sendable
    simp [hpacket] at hok
  | ok packet =>
    have hsend : self.Sendable W msg := packet_ok_iff.mp ⟨packet, hpacket⟩
    dsimp only
    by_cases hblocks : sendto.Blocks
    · exact iff_of_false (fun h => h.unblocked hblocks) (fun h => h.2 hblocks)
    · rw [if_neg hblocks, and_iff_left hblocks]
      by_cases hret : sendto.ret = -1
      · rw [if_pos hret]
        exact iff_of_true ⟨hsend, hblocks, fun h => absurd hret h⟩ ⟨_, rfl⟩
      · rw [if_neg hret, onSent_ok_iff]
        exact ⟨fun h => h.printed hret, fun h => ⟨hsend, hblocks, fun _ => h⟩⟩

end Sender

namespace Drain

open Loop

/-- The loop of `periodic` before its first round. -/
def start (server : Sender) : Drain := { server }

variable {W : Encoder} {P : Printer} {B : Build} {outcomes : Nat → SendTo} {self s t : Drain}
  {msg : Addressed} {rest : List Addressed} {n : Nat}

theorem next_eq_some : self.next W P B outcomes = some t ↔ self.thrown = none ∧
    ∃ msg rest, self.server.messageQueue = msg :: rest ∧
      self.attempt W P B outcomes msg rest = t := by
  unfold next
  cases hthrown : self.thrown with
  | some fault => simp
  | none =>
    cases hqueue : self.server.messageQueue with
    | nil => simp
    | cons msg rest => simp

theorem next_eq_none : self.next W P B outcomes = none ↔
    self.thrown ≠ none ∨ self.server.messageQueue = [] := by
  unfold next
  cases hthrown : self.thrown with
  | some fault => simp
  | none =>
    cases hqueue : self.server.messageQueue with
    | nil => simp
    | cons msg rest => simp

theorem attempt_thrown_iff : (self.attempt W P B outcomes msg rest).thrown = none ↔
    ∃ ret, ({ self.server with messageQueue := rest }.sendData W P B msg
      (outcomes self.attempts.length)).2 =
      .ok ret := by
  unfold attempt
  dsimp only
  split <;> simp [*]

theorem attempt_messageQueue (h : (self.attempt W P B outcomes msg rest).thrown = none) :
    (self.attempt W P B outcomes msg rest).server.messageQueue =
      if (outcomes self.attempts.length).Blocks then rest ++ [msg] else rest := by
  obtain ⟨ret, hret⟩ := attempt_thrown_iff.mp h
  exact Sender.sendData_messageQueue hret

theorem goes_iff : self.server.Goes W B msg (outcomes self.attempts.length) ↔
    (self.attempt W P B outcomes msg rest).thrown = none ∧
      ¬ (outcomes self.attempts.length).Blocks := by
  rw [attempt_thrown_iff, ← Sender.goes_iff]
  exact Sender.goes_congr rfl rfl

theorem sendable_attempt {later : Addressed} :
    (self.attempt W P B outcomes msg rest).server.Sendable W later ↔ self.server.Sendable W later :=
  Sender.sendable_congr Sender.sendData_sock4 Sender.sendData_sock6

theorem goes_attempt {later : Addressed} {sendto : SendTo} :
    (self.attempt W P B outcomes msg rest).server.Goes W B later sendto ↔
      self.server.Goes W B later sendto :=
  Sender.goes_congr Sender.sendData_sock4 Sender.sendData_sock6

/-- No message is lost and none is sent twice, as long as nothing is thrown. -/
theorem next_perm (h : self.next W P B outcomes = some t) (hthrown : t.thrown = none) :
    (t.done ++ t.server.messageQueue).Perm (self.done ++ self.server.messageQueue) := by
  obtain ⟨-, msg, rest, hqueue, rfl⟩ := next_eq_some.mp h
  rw [attempt_messageQueue hthrown, hqueue]
  by_cases hblocks : (outcomes self.attempts.length).Blocks
  · have hdone : (self.attempt W P B outcomes msg rest).done = self.done := by
      simp [attempt, done, List.filter_append, hblocks]
    rw [if_pos hblocks, hdone]
    exact (List.perm_append_singleton msg rest).append_left _
  · have hdone : (self.attempt W P B outcomes msg rest).done = self.done ++ [msg] := by
      simp [attempt, done, List.filter_append, hblocks]
    rw [if_neg hblocks, hdone, List.append_assoc, List.singleton_append]

/-- However long the loop has run: each message was sent, has failed, or is in the queue. -/
theorem rounds_perm (h : Rounds (next W P B outcomes) n s t) :
    t.thrown = none → (t.done ++ t.server.messageQueue).Perm (s.done ++ s.server.messageQueue) := by
  refine h.inv (I := fun t => t.thrown = none →
    (t.done ++ t.server.messageQueue).Perm (s.done ++ s.server.messageQueue)) ?_ (fun _ => .refl _)
  intro u v ih hnext hthrown
  exact (next_perm hnext hthrown).trans (ih (next_eq_some.mp hnext).1)

/-- A round takes at most one message from the queue. -/
theorem length_le (h : Rounds (next W P B outcomes) n s t) :
    s.server.messageQueue.length ≤ n + t.server.messageQueue.length := by
  induction h with
  | zero s => omega
  | @succ n s t u hnext _ ih =>
    obtain ⟨-, msg, rest, hqueue, rfl⟩ := next_eq_some.mp hnext
    have hrest : rest.length ≤ (s.attempt W P B outcomes msg rest).server.messageQueue.length :=
      (Sender.prefix_sendData { s.server with messageQueue := rest }).length_le
    rw [hqueue, List.length_cons]
    omega

/-- If every message goes, the loop empties the queue from the front. -/
theorem rounds_of_goes (queue : List Addressed) (s : Drain) (hqueue : s.server.messageQueue = queue)
    (hthrown : s.thrown = none) (hgoes : ∀ i msg, queue[i]? = some msg →
      s.server.Goes W B msg (outcomes (s.attempts.length + i))) :
    ∃ t, Rounds (next W P B outcomes) queue.length s t ∧ t.thrown = none ∧
      t.server.messageQueue = [] ∧
      t.tried = s.tried ++ queue ∧ t.blocked = s.blocked := by
  induction queue generalizing s with
  | nil => exact ⟨s, .zero s, hthrown, hqueue, by simp, rfl⟩
  | cons msg rest ih =>
    have hnext : s.next W P B outcomes = some (s.attempt W P B outcomes msg rest) :=
      next_eq_some.mpr ⟨hthrown, msg, rest, hqueue, rfl⟩
    obtain ⟨hok, hblocks⟩ := goes_iff.mp (hgoes 0 msg rfl)
    obtain ⟨t, hrounds, ht, hempty, htried, hblocked⟩ := ih (s.attempt W P B outcomes msg rest)
      (by rw [attempt_messageQueue hok, if_neg hblocks]) hok fun i later hlater => by
        have h := hgoes (i + 1) later hlater
        rw [goes_attempt]
        have hlength : (s.attempt W P B outcomes msg rest).attempts.length + i =
            s.attempts.length + (i + 1) := by
          simp [attempt]
          omega
        rwa [hlength]
    refine ⟨t, .succ hnext hrounds, ht, hempty, ?_, ?_⟩
    · rw [htried]
      simp [tried, attempt]
    · rw [hblocked]
      simp [blocked, attempt, List.filter_append, hblocks]

/-- If the loop empties the queue in as many rounds as there are messages, every message goes. -/
theorem goes_of_rounds (h : Rounds (next W P B outcomes) n s t)
    (hn : n ≤ s.server.messageQueue.length) (ht : t.thrown = none)
    (hempty : t.server.messageQueue = []) :
    ∀ i msg, s.server.messageQueue[i]? = some msg →
      s.server.Goes W B msg (outcomes (s.attempts.length + i)) := by
  induction h with
  | zero s =>
    intro i msg hmsg
    simp [hempty] at hmsg
  | @succ n s u t hnext hrounds ih =>
    obtain ⟨-, msg, rest, hqueue, rfl⟩ := next_eq_some.mp hnext
    have hok : (s.attempt W P B outcomes msg rest).thrown = none := by
      cases hrounds with
      | zero => exact ht
      | succ hlater _ => exact (next_eq_some.mp hlater).1
    have hlength := length_le hrounds
    rw [hempty, attempt_messageQueue hok] at hlength
    have hblocks : ¬ (outcomes s.attempts.length).Blocks := by
      intro hblocks
      rw [if_pos hblocks] at hlength
      simp [hqueue] at hlength hn
      omega
    rw [hqueue] at hn ⊢
    have hlater := ih (by rw [attempt_messageQueue hok, if_neg hblocks]; simpa using hn) ht hempty
    rw [attempt_messageQueue hok, if_neg hblocks] at hlater
    intro i later hi
    cases i with
    | zero =>
      cases hi
      exact goes_iff.mpr ⟨hok, hblocks⟩
    | succ i =>
      have h := goes_attempt.mp (hlater i later hi)
      have hlength : (s.attempt W P B outcomes msg rest).attempts.length + i =
          s.attempts.length + (i + 1) := by
        simp [attempt]
        omega
      rwa [hlength] at h

/-- The loop of `periodic` is as it should be: it ends without an exception, after at most one
attempt for each message; each message was tried once, and those that would have blocked are in the
queue. -/
def Drains (W : Encoder) (P : Printer) (B : Build) (outcomes : Nat → SendTo)
    (server : Sender) : Prop :=
  ∃ n t, n ≤ server.messageQueue.length ∧ Rounds (next W P B outcomes) n (start server) t ∧
    t.next W P B outcomes = none ∧ t.thrown = none ∧ t.tried.Perm server.messageQueue ∧
    t.server.messageQueue.Perm t.blocked

theorem goes_of_drains {server : Sender} (h : Drains W P B outcomes server) :
    ∀ i msg, server.messageQueue[i]? = some msg → server.Goes W B msg (outcomes i) := by
  obtain ⟨n, t, hn, hrounds, hend, ht, -, -⟩ := h
  have hempty : t.server.messageQueue = [] := (next_eq_none.mp hend).resolve_left (fun h => h ht)
  intro i msg hmsg
  have hgoes := goes_of_rounds hrounds hn ht hempty i msg hmsg
  rwa [start, List.length_nil, Nat.zero_add] at hgoes

/-- The loop is as it should be exactly if none of the first attempts, one for each message, blocks
or throws. -/
theorem drains_iff (W : Encoder) (P : Printer) (B : Build) (outcomes : Nat → SendTo)
    (server : Sender) :
    Drains W P B outcomes server ↔
      ∀ i msg, server.messageQueue[i]? = some msg → server.Goes W B msg (outcomes i) := by
  refine ⟨goes_of_drains, fun hgoes => ?_⟩
  obtain ⟨t, hrounds, ht, hempty, htried, hblocked⟩ :=
    rounds_of_goes (P := P) server.messageQueue (start server) rfl rfl (fun i msg hmsg => by
      rw [start, List.length_nil, Nat.zero_add]
      exact hgoes i msg hmsg)
  refine ⟨_, t, le_rfl, hrounds, next_eq_none.mpr (.inr hempty), ht, ?_, ?_⟩
  · rw [htried]
    exact .refl _
  · rw [hempty, hblocked]
    exact .refl _

/-- A state in which the loop goes on, and in which no message is refused. -/
structure Waiting (W : Encoder) (d : Drain) : Prop where
  running : d.thrown = none
  pending : d.server.messageQueue ≠ []
  sendable : ∀ msg ∈ d.server.messageQueue, d.server.Sendable W msg

/-- A round in which `sendto` would block turns the queue. -/
theorem Waiting.next (h : self.Waiting W) (hblocks : ∀ i, (outcomes i).Blocks) :
    ∃ t, self.next W P B outcomes = some t ∧ t.Waiting W := by
  obtain ⟨msg, rest, hqueue⟩ := List.exists_cons_of_ne_nil h.pending
  have hsend : self.server.Sendable W msg :=
    h.sendable msg (by rw [hqueue]; exact List.mem_cons_self)
  have hpopped : ({ self.server with messageQueue := rest } : Sender).Sendable W msg ↔
      self.server.Sendable W msg :=
    Sender.sendable_congr rfl rfl
  have hok : (self.attempt W P B outcomes msg rest).thrown = none :=
    attempt_thrown_iff.mpr ⟨EAGAIN, Sender.sendData_blocked (hpopped.mpr hsend) (hblocks _)⟩
  have hafter : (self.attempt W P B outcomes msg rest).server.messageQueue = rest ++ [msg] := by
    rw [attempt_messageQueue hok, if_pos (hblocks _)]
  refine ⟨_, next_eq_some.mpr ⟨h.running, msg, rest, hqueue, rfl⟩, hok, by simp [hafter], ?_⟩
  intro later hlater
  refine sendable_attempt.mpr (h.sendable later ?_)
  rw [hafter, List.mem_append, List.mem_singleton] at hlater
  rw [hqueue, List.mem_cons]
  exact hlater.symm

/-- While `sendto` would block, the loop does not end. -/
theorem blocked_endless (hblocks : ∀ i, (outcomes i).Blocks) {server : Sender}
    (hne : server.messageQueue ≠ [])
    (hsend : ∀ msg ∈ server.messageQueue, server.Sendable W msg) (n : Nat) :
    ∃ t, Rounds (next W P B outcomes) n (start server) t ∧ t.next W P B outcomes ≠ none := by
  obtain ⟨t, hrounds, ht⟩ :=
    exists_rounds (I := Waiting W) (fun s hs => hs.next hblocks) n (start server)
    ⟨rfl, hne, hsend⟩
  obtain ⟨u, hu, -⟩ := ht.next (P := P) (B := B) hblocks
  exact ⟨t, hrounds, by simp [hu]⟩

/-- One message, and a socket whose buffer is full: the loop of `periodic` does not end. -/
theorem drains_blocked : ∃ (W : Encoder) (P : Printer) (B : Build) (server : Sender)
    (outcomes : Nat → SendTo),
    server.messageQueue.length = 1 ∧ (∀ msg ∈ server.messageQueue, server.Sendable W msg) ∧
    (∀ i, outcomes i = ⟨-1, EAGAIN⟩) ∧ ¬ Drains W P B outcomes server := by
  let msg : Addressed :=
    { content := .pingRequest, remoteId := Id.zero, remoteAddr := .inet ⟨[10, 0, 0, 1], rfl⟩ 39001 }
  refine ⟨⟨fun _ => [], fun _ bytes => some bytes⟩, ⟨fun _ => [], fun _ => []⟩, ⟨true⟩,
    { sock4 := 5, sock6 := -1, messageQueue := [msg] }, fun _ => ⟨-1, EAGAIN⟩, rfl,
      ?_, fun _ => rfl, ?_⟩
  · intro m hm
    obtain rfl := List.mem_singleton.mp hm
    exact ⟨rfl, ⟨5, rfl, by decide⟩, ⟨_, rfl, [], rfl⟩⟩
  · intro h
    exact (goes_of_drains h 0 msg rfl).unblocked (.inr ⟨rfl, rfl⟩)

end Drain

end Boson
