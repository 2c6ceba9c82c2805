import Boson.Message.Serialize
import Boson.Node.Admission

/-!
# What a node sends while it handles a packet

The handlers of calls, the tasks and the listeners of tasks run while `RPCServer::handlePacket` is
at work, and may send calls themselves. `Callback` is what such code does; `CallSite` lists the
places of the code that make calls, with the request of each. `tracedPacket` is `handlePacket` with
these, and with what was sent before an exception.

* `agrees_packet`: where other code does nothing, it is `handlePacket`.
* `sendsErrors_tracedPacket`: no error is sent while an error is handled, and two at most for
  another message.
-/

namespace Boson

open FoldM

/-- Where the code makes a call. -/
inductive CallSite where
  /-- `DHT::bootstrap`. -/
  | bootstrap (target : Id)
  /-- `DHT::received`, the job that checks the socket, and `PingRefreshTask::update`. -/
  | ping
  | nodeLookup (target : Id) (wantToken : Bool)
  | valueLookup (target : Id) (expectedSequence : Int32)
  | peerLookup (target : Id)
  | valueAnnounce (value : Value) (token : Int32)
  | peerAnnounce (peer : PeerInfo) (token : Int32)

/-- The request that a DHT of this family makes the call with. -/
def CallSite.request (type : Network) : CallSite → Content
  | bootstrap target =>
    .findNodeRequest { target := target, want4 := type = .ipv4, want6 := type = .ipv6 }
  | ping => .pingRequest
  | nodeLookup target wantToken =>
    .findNodeRequest
      { target := target, want4 := type = .ipv4, want6 := type = .ipv6, wantToken := wantToken }
  | valueLookup target expectedSequence =>
    .findValueRequest { target := target, want4 := type = .ipv4, want6 := type = .ipv6 }
      expectedSequence
  | peerLookup target =>
    .findPeerRequest { target := target, want4 := type = .ipv4, want6 := type = .ipv6 }
  | valueAnnounce value token =>
    .storeValueRequest { ValueFields.setValue {} value with token := token }
  | peerAnnounce peer token =>
    .announcePeerRequest
      (({ token := token, port := peer.port } : AnnouncePeerRequest).setPeer peer)

/-- What the code of tasks and handlers does while the server is at work. `fails` tells if
`sendData` throws for the call, `onSent` is what the new call's own handler does when it is sent. -/
inductive Callback where
  | done
  | throw
  | sendCall (type : Network) (id : Id) (remote : SocketAddress) (site : CallSite) (fails : Bool)
      (onSent rest : Callback)
  /-- What `body` throws is caught. -/
  | caught (body rest : Callback)
  | table (type : Network) (op : TableOp) (rest : Callback)

/-- A node after a piece of code, and whether that ended with an exception. -/
structure Processed where
  node : Node
  threw : Bool

namespace Processed

/-- The code ended normally. -/
def ok (node : Node) : Processed := ⟨node, false⟩

/-- The code threw. -/
def thrown (node : Node) : Processed := ⟨node, true⟩

/-- The code goes on with `f`, unless it threw. -/
def andThen (r : Processed) (f : Node → Processed) : Processed := if r.threw then r else f r.node

end Processed

namespace Node

open Processed

/-- `RPCCall::updateState`. `handler` is what the state change handler does. -/
def updateState (self : Node) (c : Nat) (st : CallState) (handler : Node → Processed) : Processed :=
  (handler { self with server := self.server.enter c st }).andThen fun node =>
    ok (if st = .timeout then { node with server := node.server.timeoutHandler c } else node)

/-- `RPCServer::sendCall` of a new call, with `dispatchCall`, `sendMessage` and `RPCCall::sent`. -/
def sendCall (self : Node) (type : Network) (id : Id) (remote : SocketAddress) (site : CallSite)
    (fails : Bool) (onSent : Node → Processed) : Processed :=
  let c := self.server.objs.length
  let (txid, server) := (self.server.newCall remote).takeTxid
  let self := { self with server := server }
  if (self.server.calls.lookup txid).isSome then thrown self
  else
    let self := { self with server := self.server.register c txid }.operate [(type, .onSend id)]
    (self.updateState c .sent onSent).andThen fun self =>
      let self := { self with server := self.server.schedule c 2000 }
      if fails then thrown self
      else
        ok { self with
          sent := self.sent ++ [{
            remoteId := id
            remote := remote
            message :=
              { id := self.id, txid := txid, version := self.version,
                content := site.request type } }] }

/-- Run a callback. -/
def execute : Callback → Node → Processed
  | .done, self => ok self
  | .throw, self => thrown self
  | .sendCall type id remote site fails onSent rest, self =>
    (self.sendCall type id remote site fails (execute onSent)).andThen (execute rest)
  | .caught body rest, self => execute rest (execute body self).node
  | .table type op rest, self => execute rest (self.operate [(type, op)])

/-- `RPCCall::responsed`. -/
def responsed (self : Node) (c : Nat) (msg : Packet) (handler : Node → Processed) : Processed :=
  let server := { self.server.cancelTimer c with delivered := self.server.delivered ++ [(c, msg)] }
  let self := { self with server := server }
  match msg.type with
  | .response => self.updateState c .responded handler
  | .err => self.updateState c .err handler
  | .request => thrown self

/-- `RPCCall::stall`. -/
def stall (self : Node) (c : Nat) (handler : Node → Processed) : Processed :=
  if (self.server.call c).state = .sent then self.updateState c .stalled handler else ok self

variable (C : Crypto) (R : RandomOrder) (P : Printer) (target : Nat → Id)

/-- `RPCServer::handleMessage` and `DHT::onMessage`. A handler of a request throws before it
replies. -/
def tracedMessage (self : Node) (msg : Message) (call : Option AnsweredCall) : Processed :=
  match self.getDHT (Network.of msg.origin) with
  | none => thrown self
  | some dht =>
    if !dht.running then ok self
    else if msg.id = self.id || msg.origin = dht.addr then ok self
    else match self.onRequest C R (Network.of msg.origin) msg with
      | .error _ => thrown self
      | .ok self =>
        match self.received (Network.of msg.origin) dht msg call with
        | .error _ => thrown self
        | .ok self => ok self

/-- The part of `RPCServer::handlePacket` for a response or an error. -/
def tracedReply (self : Node) (msg : Message) (f : Callback) : Processed :=
  match self.server.calls.lookup msg.txid with
  | some (_, c) =>
    if (self.server.call c).remote = msg.origin then
      let call := self.answered target msg c
      let server :=
        { self.server with calls := self.server.calls.deleteWhere fun r => r.1 = msg.txid }
      ({ self with server := server }.responsed c (packetOf msg) (execute f)).andThen fun self =>
        self.tracedMessage C R msg (some call)
    else
      let self := if msg.getType = .response && self.server.dht6 then
          self.sendMismatch P msg (self.server.call c).remote
        else self
      self.stall c (execute f)
  | none =>
    if msg.getType = .response && self.server.now - self.server.startTime > 2 * 60 * 1000 then
      ok (self.sendError msg PROTOCOL_ERROR
        ("Received a response message whose transaction ID did not match a pending request " ++
          "or transaction expired"))
    else if msg.getType = .err then self.tracedMessage C R msg none
    else ok self

/-- `RPCServer::handlePacket` after the message is parsed. -/
def tracedPacket (self : Node) (msg : Message) (f : Callback) : Processed :=
  if msg.getType = .request then (self.checkTxid msg).tracedMessage C R msg none
  else (self.checkTxid msg).tracedReply C R P target msg f

variable {C R P target} {self after : Node} {msg : Message}

/-! ## Other code that does nothing -/

/-- The code and its traced form end alike. -/
structure Agrees (result : Except Fault Node) (traced : Processed) : Prop where
  /-- With the same node. -/
  of_ok : ∀ after, result = .ok after → traced = ok after
  of_error : ∀ fault, result = .error fault → traced.threw = true

theorem agrees_ok (node : Node) : Agrees (.ok node) (ok node) := by
  constructor
  · intro after h
    cases h
    rfl
  · intro fault h
    cases h

theorem agrees_of_threw (fault : Fault) {traced : Processed} (h : traced.threw = true) :
    Agrees (.error fault) traced := by
  constructor
  · intro after hok
    cases hok
  · intro _ _
    exact h

/-- What the server of calls does, on the node. -/
def lift (self : Node) (r : Res) : Processed := ⟨{ self with server := r.state }, r.threw⟩

theorem updateState_done (self : Node) (c : Nat) (st : CallState) :
    self.updateState c st (execute .done) = self.lift
      (self.server.updateState c st (RPCServer.exec .done)) := by
  cases st <;> rfl

theorem responsed_done (self : Node) (c : Nat) (msg : Packet) :
    self.responsed c msg (execute .done) = self.lift
      (self.server.responsed c msg (RPCServer.exec .done)) := by
  unfold responsed RPCServer.responsed
  cases msg.type <;> rfl

theorem stall_done (self : Node) (c : Nat) :
    self.stall c (execute .done) = self.lift (self.server.stall c (RPCServer.exec .done)) := by
  unfold stall RPCServer.stall
  split_ifs
  · exact updateState_done self c .stalled
  · rfl

theorem agrees_message (self : Node) (msg : Message) (call : Option AnsweredCall) :
    Agrees (self.handleMessage C R msg call) (self.tracedMessage C R msg call) := by
  unfold handleMessage tracedMessage
  dsimp only
  cases self.getDHT (Network.of msg.origin) with
  | none => exact agrees_of_threw _ rfl
  | some dht =>
    dsimp only [onMessage]
    split_ifs
    · exact agrees_ok self
    · exact agrees_ok self
    · cases self.onRequest C R (Network.of msg.origin) msg with
      | error fault => exact agrees_of_threw fault rfl
      | ok mid =>
        change Agrees (mid.received (Network.of msg.origin) dht msg call) _
        dsimp only
        cases mid.received (Network.of msg.origin) dht msg call with
        | error fault => exact agrees_of_threw fault rfl
        | ok after => exact agrees_ok after

theorem agrees_reply (self : Node) (msg : Message) :
    Agrees (self.handleReply C R P target msg {}) (self.tracedReply C R P target msg .done) := by
  unfold handleReply tracedReply
  cases self.server.calls.lookup msg.txid with
  | none =>
    dsimp only
    split_ifs
    · exact agrees_ok _
    · exact agrees_message self msg none
    · exact agrees_ok self
  | some r =>
    obtain ⟨txid, c⟩ := r
    dsimp only
    by_cases hremote : (self.server.call c).remote = msg.origin
    · rw [if_pos hremote, if_pos hremote, responsed_done]
      dsimp only [lift, Processed.andThen]
      split_ifs with hthrew
      · exact agrees_of_threw _ hthrew
      · exact agrees_message _ msg _
    · rw [if_neg hremote, if_neg hremote, stall_done]
      dsimp only [lift]
      generalize (if (msg.getType = .response && self.server.dht6) = true then
        self.sendMismatch P msg (self.server.call c).remote else self) = node
      cases hthrew : (node.server.stall c (RPCServer.exec .done)).threw with
      | true => exact agrees_of_threw _ rfl
      | false => exact agrees_ok _

/-- Where other code does nothing, the traced form is `handlePacket`. -/
theorem agrees_packet (self : Node) (msg : Message) :
    Agrees (self.handlePacket C R P target msg {}) (self.tracedPacket C R P target msg .done) := by
  unfold handlePacket tracedPacket
  split_ifs
  · exact agrees_message _ msg none
  · exact agrees_reply _ msg

/-! ## The errors that are sent -/

end Node

/-- An error. -/
def Outgoing.isError (self : Outgoing) : Bool := self.message.getType = .err

/-- From the first node to the second, at most `n` errors were sent. -/
def SendsErrors (n : Nat) (before after : Node) : Prop :=
  ∃ out, after.sent = before.sent ++ out ∧ out.countP Outgoing.isError ≤ n

namespace SendsErrors

variable {n m : Nat} {a b c : Node}

theorem of_eq (h : b.sent = a.sent) : SendsErrors n a b := ⟨[], by simp [h], Nat.zero_le n⟩

theorem refl (a : Node) : SendsErrors n a a := of_eq rfl

theorem trans (h : SendsErrors n a b) (h' : SendsErrors m b c) : SendsErrors (n + m) a c := by
  obtain ⟨out, hout, hn⟩ := h
  obtain ⟨out', hout', hm⟩ := h'
  refine ⟨out ++ out', by rw [hout', hout, List.append_assoc], ?_⟩
  rw [List.countP_append]
  exact Nat.add_le_add hn hm

theorem mono (h : SendsErrors n a b) (hnm : n ≤ m) : SendsErrors m a b := by
  obtain ⟨out, hout, hn⟩ := h
  exact ⟨out, hout, hn.trans hnm⟩

/-- One message is sent. -/
theorem of_sent {o : Outgoing} (h : b.sent = a.sent ++ [o]) : SendsErrors 1 a b :=
  ⟨[o], h, List.countP_le_length⟩

theorem of_sent_request {o : Outgoing} (h : b.sent = a.sent ++ [o]) (ho : o.isError = false) :
    SendsErrors 0 a b :=
  ⟨[o], h, by simp [ho]⟩

theorem andThen {r : Processed} {f : Node → Processed} (h : SendsErrors n a r.node)
    (hf : SendsErrors m r.node (f r.node).node) : SendsErrors (n + m) a (r.andThen f).node := by
  unfold Processed.andThen
  split_ifs
  · exact h.mono (Nat.le_add_right n m)
  · exact h.trans hf

end SendsErrors

/-- The code makes calls with requests. -/
theorem CallSite.request_type (site : CallSite) (type : Network) (msg : Message)
    (h : msg.content = site.request type) : msg.getType = .request := by
  unfold Message.getType
  rw [h]
  cases site <;> rfl

namespace Node

open Processed

variable {C : Crypto} {R : RandomOrder} {P : Printer} {target : Nat → Id} {self after : Node}
  {msg : Message} {type : Network}

@[simp] theorem operate_sent (self : Node) (ops : List (Network × TableOp)) :
    (self.operate ops).sent = self.sent := by
  unfold operate
  induction ops generalizing self with
  | nil => rfl
  | cons op ops ih =>
    rw [List.foldl_cons, ih]
    split
    · exact setDHT_sent _
    · rfl

theorem sendsErrors_updateState {handler : Node → Processed}
    (h : ∀ node, SendsErrors 0 node (handler node).node)
    (self : Node) (c : Nat) (st : CallState) :
    SendsErrors 0 self (self.updateState c st handler).node := by
  have hhandler :
      SendsErrors 0 self (handler { self with server := self.server.enter c st }).node :=
    h { self with server := self.server.enter c st }
  refine hhandler.andThen (m := 0) ?_
  dsimp only [Processed.ok]
  split_ifs
  · exact .of_eq rfl
  · exact .refl _

theorem sendsErrors_sendCall {onSent : Node → Processed}
    (h : ∀ node, SendsErrors 0 node (onSent node).node) (self : Node) (type : Network) (id : Id)
    (remote : SocketAddress) (site : CallSite) (fails : Bool) :
    SendsErrors 0 self (self.sendCall type id remote site fails onSent).node := by
  unfold sendCall
  dsimp only
  split_ifs
  · exact .of_eq rfl
  · refine SendsErrors.andThen (n := 0) (m := 0) ?_ (.of_eq rfl)
    exact .trans (n := 0) (m := 0) (.of_eq (by rw [operate_sent])) (sendsErrors_updateState h _ _ _)
  · refine SendsErrors.andThen (n := 0) (m := 0) ?_ (.of_sent_request rfl ?_)
    · exact .trans (n := 0) (m := 0) (.of_eq (by rw [operate_sent]))
        (sendsErrors_updateState h _ _ _)
    · rw [Outgoing.isError, site.request_type type _ rfl]
      rfl

/-- The code of tasks and handlers sends no error. -/
theorem sendsErrors_execute (f : Callback) (self : Node) :
    SendsErrors 0 self (execute f self).node := by
  induction f generalizing self with
  | done => exact .refl self
  | throw => exact .refl self
  | sendCall type id remote site fails onSent rest ihSent ihRest =>
    exact (sendsErrors_sendCall ihSent self type id remote site fails).andThen (m := 0) (ihRest _)
  | caught body rest ihBody ihRest => exact (ihBody self).trans (m := 0) (ihRest _)
  | table type op rest ih => exact .trans (n := 0) (m := 0) (.of_eq (operate_sent self _)) (ih _)

theorem sendsErrors_responsed (self : Node) (c : Nat) (msg : Packet) (f : Callback) :
    SendsErrors 0 self (self.responsed c msg (execute f)).node := by
  have hstate (self : Node) (st : CallState) :=
    sendsErrors_updateState (sendsErrors_execute f) self c st
  unfold responsed
  dsimp only
  split
  · exact .trans (n := 0) (m := 0) (.of_eq rfl) (hstate _ _)
  · exact .trans (n := 0) (m := 0) (.of_eq rfl) (hstate _ _)
  · exact .of_eq rfl

theorem sendsErrors_stall (self : Node) (c : Nat) (f : Callback) :
    SendsErrors 0 self (self.stall c (execute f)).node := by
  unfold stall
  split_ifs
  · exact sendsErrors_updateState (sendsErrors_execute f) self c _
  · exact .refl self

/-- A ping is the only thing that `received` may send. -/
theorem sendsErrors_sendPing {dht dht' : DHT} {id : Id} {addr : SocketAddress}
    (h : self.sendPing type dht id addr = .ok (dht', after)) : SendsErrors 0 self after := by
  unfold sendPing at h
  dsimp only at h
  split_ifs at h
  cases h
  exact .of_sent_request rfl rfl

theorem sendsErrors_enlist {dht : DHT} {call : Option AnsweredCall} {old : Option KBucketEntry}
    (h : self.enlist type dht msg call old = .ok after) : SendsErrors 0 self after := by
  unfold enlist at h
  dsimp only at h
  split at h
  · cases h
    exact .of_eq (setDHT_sent _)
  · obtain ⟨⟨dht', mid⟩, hping, h⟩ := bind_eq_ok_iff.mp h
    cases h
    exact (sendsErrors_sendPing hping).trans (m := 0) (.of_eq (setDHT_sent _))
  · cases h
    exact .of_eq (setDHT_sent _)

theorem sendsErrors_received {dht : DHT} {call : Option AnsweredCall}
    (h : self.received type dht msg call = .ok after) : SendsErrors 0 self after := by
  unfold received at h
  obtain ⟨bogon, -, h⟩ := bind_eq_ok_iff.mp h
  dsimp only at h
  split_ifs at h
  · cases h
    exact .refl self
  · cases h
    exact .refl self
  · cases h
    exact .refl self
  · split at h
    · cases h
      exact .of_eq (setDHT_sent _)
    · exact sendsErrors_enlist h

theorem RepliesIff.sendsErrors {Q : Prop} {result : Except Fault Node}
    (h : RepliesIff Q msg self result)
    (hres : result = .ok after) : SendsErrors 1 self after := by
  subst hres
  by_cases hQ : Q
  · obtain ⟨_, hok, hreplied⟩ := h.replies hQ
    cases hok
    obtain ⟨r, hsent, -⟩ := hreplied.sent
    exact .of_sent hsent
  · obtain ⟨_, herr⟩ := h.fails hQ
    cases herr

theorem sendsErrors_onAnnouncePeer {q : AnnouncePeerRequest}
    (h : self.onAnnouncePeer C msg q = .ok after) :
    SendsErrors 1 self after := by
  cases hb : msg.origin.isBogon with
  | none =>
    simp only [onAnnouncePeer, isBogon, hb] at h
    cases h
  | some b =>
    cases b with
    | false => exact (onAnnouncePeer_spec q hb).sendsErrors h
    | true =>
      simp only [onAnnouncePeer, isBogon, hb] at h
      cases h
      exact .refl self

/-- A request is replied to once. -/
theorem sendsErrors_onRequest (h : self.onRequest C R type msg = .ok after) :
    SendsErrors 1 self after := by
  unfold onRequest at h
  split at h
  · exact onPing_spec.sendsErrors h
  · exact (onFindNode_spec _).sendsErrors h
  · exact (onFindValue_spec _ _).sendsErrors h
  · exact (onStoreValue_spec _).sendsErrors h
  · exact (onFindPeers_spec _).sendsErrors h
  · exact sendsErrors_onAnnouncePeer h
  · cases h
    exact .refl self

theorem onRequest_of_not_request (h : msg.getType ≠ .request) :
    self.onRequest C R type msg = .ok self := by
  unfold Message.getType at h
  unfold onRequest
  cases hc : msg.content <;> rw [hc] at h <;> first | rfl | exact absurd rfl h

/-! ## A packet -/

/-- What `received` does comes after the handler of a request. -/
theorem sendsErrors_tracedMessage {n : Nat} (call : Option AnsweredCall)
    (h : ∀ type mid, self.onRequest C R type msg = .ok mid → SendsErrors n self mid) :
    SendsErrors n self (self.tracedMessage C R msg call).node := by
  unfold tracedMessage
  cases self.getDHT (Network.of msg.origin) with
  | none => exact .of_eq rfl
  | some dht =>
    dsimp only
    split_ifs
    · exact .of_eq rfl
    · exact .of_eq rfl
    · cases hreq : self.onRequest C R (Network.of msg.origin) msg with
      | error fault => exact .of_eq rfl
      | ok mid =>
        dsimp only
        have hmid := h _ mid hreq
        cases hres : mid.received (Network.of msg.origin) dht msg call with
        | error fault => exact hmid
        | ok after => exact hmid.trans (m := 0) (sendsErrors_received hres)

theorem sendsErrors_tracedMessage_request (self : Node) (msg : Message)
    (call : Option AnsweredCall) :
    SendsErrors 1 self (self.tracedMessage C R msg call).node :=
  sendsErrors_tracedMessage call fun _ _ => sendsErrors_onRequest

/-- A response or an error is not replied to. -/
theorem sendsErrors_tracedMessage_reply (self : Node) (call : Option AnsweredCall)
    (hmsg : msg.getType ≠ .request) :
    SendsErrors 0 self (self.tracedMessage C R msg call).node := by
  refine sendsErrors_tracedMessage call fun type mid h => ?_
  rw [onRequest_of_not_request hmsg] at h
  cases h
  exact .refl self

/-- The reply to a response that matches no call, or one from another address, is an error; an error
gets none. -/
theorem sendsErrors_tracedReply (self : Node) (f : Callback) (hmsg : msg.getType ≠ .request) :
    SendsErrors (if msg.getType = .err then 0 else 1) self
      (self.tracedReply C R P target msg f).node := by
  have hresponse (h : msg.getType = .response) : (if msg.getType = .err then 0 else 1) =
      1 := by rw [h]; rfl
  unfold tracedReply
  cases self.server.calls.lookup msg.txid with
  | some r =>
    obtain ⟨txid, c⟩ := r
    dsimp only
    by_cases hremote : (self.server.call c).remote = msg.origin
    · rw [if_pos hremote]
      refine .mono (n := 0) ?_ (Nat.zero_le _)
      refine SendsErrors.andThen (n := 0) (m := 0) ?_ (sendsErrors_tracedMessage_reply _ _ hmsg)
      exact .trans (n := 0) (m := 0) (.of_eq rfl) (sendsErrors_responsed _ c _ f)
    · rw [if_neg hremote]
      refine SendsErrors.trans (n := if msg.getType = .err then 0 else 1) (m :=
        0) ?_ (sendsErrors_stall _ c f)
      by_cases hmismatch : (msg.getType = .response && self.server.dht6) = true
      · rw [if_pos hmismatch]
        rw [Bool.and_eq_true, decide_eq_true_eq] at hmismatch
        rw [hresponse hmismatch.1]
        exact .of_sent rfl
      · rw [if_neg hmismatch]
        exact .refl self
  | none =>
    dsimp only
    by_cases hlate :
      (msg.getType = .response && self.server.now - self.server.startTime > 2 * 60 * 1000) = true
    · rw [if_pos hlate]
      rw [Bool.and_eq_true, decide_eq_true_eq] at hlate
      rw [hresponse hlate.1]
      exact .of_sent rfl
    · rw [if_neg hlate]
      refine .mono (n := 0) ?_ (Nat.zero_le _)
      split_ifs
      · exact sendsErrors_tracedMessage_reply self none hmsg
      · exact .refl self

theorem sendsErrors_checkTxid (self : Node) (msg : Message) :
    SendsErrors (if msg.getType = .err then 0 else 1) self (self.checkTxid msg) := by
  unfold checkTxid
  by_cases hzero : msg.getType ≠ .err ∧ msg.txid = 0
  · rw [if_pos hzero, if_neg hzero.1]
    exact .of_sent rfl
  · rw [if_neg hzero]
    exact .refl self

/-- The number of errors that a message may cause. -/
def errorBudget (msg : Message) : Nat := if msg.getType = .err then 0 else 2

/-- No error is sent while an error is handled, and two at most for another message: one for its
transaction id, and one as the reply. -/
theorem sendsErrors_tracedPacket (C : Crypto) (R : RandomOrder) (P : Printer)
    (target : Nat → Id) (self : Node) (msg : Message) (f : Callback) :
    SendsErrors (errorBudget msg) self (self.tracedPacket C R P target msg f).node := by
  have hcheck := sendsErrors_checkTxid self msg
  unfold tracedPacket errorBudget
  by_cases hreq : msg.getType = .request
  · rw [if_pos hreq, if_neg (by rw [hreq]; nofun)]
    rw [if_neg (by rw [hreq]; nofun)] at hcheck
    exact hcheck.trans (sendsErrors_tracedMessage_request _ msg none)
  · rw [if_neg hreq]
    refine (hcheck.trans (sendsErrors_tracedReply (self.checkTxid msg) f hreq)).mono ?_
    split_ifs
    · exact Nat.le_refl 0
    · exact Nat.le_refl 2

end Node

end Boson
