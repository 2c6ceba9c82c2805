import Boson.Message.Print
import Boson.Node.Requests

/-!
# Every request is answered once

`Answered` is what a request is owed: no exception leaves `handlePacket`, no missing DHT is used,
and one reply goes to the sender (none for an `ANNOUNCE_PEER` from a bogon address).

* `dispatch_answered_iff`: when a request gets that. What may go wrong: a transaction id of 0 is
  answered with an error and then handled, so it is answered twice; closest nodes of a family that
  the node has no DHT for; fields that make no value or no peer; a value that the storage rejects;
  and the ping to a new node, if its transaction id is still in use. In the last three cases an
  exception leaves the handler.
-/

namespace Boson

open FoldM

namespace Node

/-- The responses and errors that were sent since `before`. -/
def repliesSince (before after : Node) : List Outgoing :=
  (after.sent.drop before.sent.length).filter Outgoing.isReply

/-- An `ANNOUNCE_PEER` from a bogon address. -/
def isIgnored (msg : Message) : Bool :=
  match msg.content with
  | .announcePeerRequest _ => msg.origin.isBogon = some true
  | _ => false

/-- A reply to `msg`. `sendData` serializes it and prints it for the log, so that its content has to
be one that can be printed. -/
structure RepliesTo (msg : Message) (r : Outgoing) : Prop where
  isReply : r.isReply = true
  remoteId : r.remoteId = msg.id
  remote : r.remote = msg.origin
  prints : ∀ B, r.message.content.printable B

/-- What a request is owed. -/
def Answered (before : Node) (msg : Message) (result : Except Fault Node) : Prop :=
  ∃ after, result = .ok after ∧
    if isIgnored msg then repliesSince before after = []
    else ∃ r, repliesSince before after = [r] ∧ RepliesTo msg r

/-- The node has a DHT for each family that the request wants nodes of. -/
def HasWanted (self : Node) (q : LookupRequest) : Prop :=
  (q.want4 = true → self.dht4.isSome = true) ∧ (q.want6 = true → self.dht6.isSome = true)

/-- The token manager takes the token of a request. -/
def TakesToken (C : Crypto) (self : Node) (msg : Message) (token : Int32) (target : Id) : Prop :=
  (self.tokenManager.verifyToken C self.now token msg.id msg.origin target).1 = true

/-- The storage takes a value: there is no live mutable value that `putValue` protects from it. -/
def TakesValue (C : Crypto) (self : Node) (v : Value) (expectedSeq : Int32) : Prop :=
  ∀ old, self.storage.values.getValue self.server.now (v.getId C) = .ok (some old) →
    old.isMutable = true → ValueTable.checkOld v expectedSeq old = .ok ()

/-- The handler of the request does not fail. -/
def Servable (C : Crypto) (self : Node) (msg : Message) : Prop :=
  match msg.content with
  | .findNodeRequest q => self.HasWanted q
  | .findValueRequest q seq =>
    (∃ v, self.storage.values.getValue self.server.now q.target = .ok (some v) ∧
      (servedValue seq (some v)).isSome = true) ∨ self.HasWanted q
  | .findPeerRequest q =>
    self.storage.peers.liveRows self.server.now q.target ≠ [] ∨ self.HasWanted q
  | .storeValueRequest q => ∃ v, q.getValue = .ok v ∧
      (TakesToken C self msg q.token (v.getId C) → v.isValid C = true →
        TakesValue C self v q.expectedSequenceNumber)
  | .announcePeerRequest q => TakesToken C self msg q.token q.peerId →
      q.port ≠ 0 ∧ q.signature.length = SIGNATURE_BYTES
  | _ => True

/-- The transaction id that `sendCall` takes next. -/
def upcomingTxid (self : Node) : Int32 :=
  if self.server.nextTxid = 0 then self.server.nextTxid + 1 else self.server.nextTxid

/-- If `received` pings the sender, it finds a free transaction id. -/
def PingFree (self : Node) (dht : DHT) (msg : Message) : Prop :=
  msg.origin.isBogon = some false → dht.routingTable.getEntry msg.id = none →
    dht.impostor msg.origin msg.id = none → self.server.calls.lookup self.upcomingTxid = none

/-! ## The handlers -/

/-- The parts of a node that no handler of a request changes. -/
structure SameShell (a b : Node) : Prop where
  id : b.id = a.id
  server : b.server = a.server
  dht4 : b.dht4 = a.dht4
  dht6 : b.dht6 = a.dht6

/-- The node sent one reply to the sender of `msg`. -/
structure Replied (msg : Message) (a b : Node) : Prop extends SameShell a b where
  sent : ∃ r, b.sent = a.sent ++ [r] ∧ RepliesTo msg r

/-- A content that a reply may have. -/
structure Replying (content : Content) : Prop where
  type : ({ content := content } : Message).getType ≠ .request
  prints : ∀ B, content.printable B

variable {C : Crypto} {R : RandomOrder} {self after : Node} {type : Network} {msg : Message}

theorem sameShell_generateToken (C : Crypto) (self : Node) (msg : Message) (target : Id) :
    SameShell self (self.generateToken C msg target).2 := ⟨rfl, rfl, rfl, rfl⟩

theorem sameShell_verifyToken (C : Crypto) (self : Node) (msg : Message) (token : Int32)
    (target : Id) :
    SameShell self (self.verifyToken C msg token target).2 := ⟨rfl, rfl, rfl, rfl⟩

theorem replied_reply (mid : Node) {content : Content} (h : SameShell self mid)
    (hsent : mid.sent = self.sent) (hc : Replying content) :
    Replied msg self (mid.reply msg content) where
  toSameShell := ⟨h.id, h.server, h.dht4, h.dht6⟩
  sent := by
    rw [← hsent]
    exact ⟨_, rfl, decide_eq_true hc.type, rfl, rfl, hc.prints⟩

theorem replied_sendError (mid : Node) (h : SameShell self mid) (hsent : mid.sent = self.sent)
    (code : Int32) (err : String) : Replied msg self (mid.sendError msg code err) :=
  replied_reply mid h hsent ⟨nofun, fun _ => trivial⟩

/-- The owner's fields of a value are complete, so that a response with it can be printed. -/
theorem printable_setValue (B : Build) (v : Value) : (ValueFields.setValue {} v).printable B := by
  unfold ValueFields.setValue
  by_cases hm : v.isMutable = true
  · obtain ⟨hnonce, ⟨sig, hsig, hlen⟩, -⟩ := v.mutable_ok (Option.isSome_iff_ne_none.mp hm)
    rw [if_pos hm]
    refine fun _ => ⟨Option.isSome_iff_ne_none.mpr hnonce, by simp [hsig], fun _ hnil => ?_⟩
    simp only [hsig, Option.some.injEq] at hnil
    simp [hnil, SIGNATURE_BYTES] at hlen
  · rw [if_neg hm]
    intro howner
    cases howner

theorem populateWanted_ok (self : Node) (type : Network) (response : LookupResponse)
    (q : LookupRequest) :
    (∃ r, self.populateWanted type response q = .ok r) ↔ self.HasWanted q := by
  unfold populateWanted populateClosestNodes closestNodes HasWanted
  cases q.want4 <;> cases q.want6 <;> cases h4 : self.dht4 <;> cases h6 : self.dht6 <;>
    simp [getDHT, h4, h6, MAX_ENTRIES_PER_BUCKET, Bind.bind, Except.bind, Functor.map, Except.map]

/-- A handler replies if `P` holds, and fails if not. -/
structure RepliesIff (P : Prop) (msg : Message) (before : Node)
    (result : Except Fault Node) : Prop where
  replies : P → ∃ after, result = .ok after ∧ Replied msg before after
  fails : ¬ P → ∃ fault, result = .error fault

theorem onPing_spec : RepliesIff True msg self (self.onPing msg) where
  replies _ := ⟨_, rfl, replied_reply self ⟨rfl, rfl, rfl, rfl⟩ rfl ⟨nofun, fun _ => trivial⟩⟩
  fails h := absurd trivial h

theorem populateWanted_error (type : Network) (response : LookupResponse) {q : LookupRequest}
    (h : ¬ self.HasWanted q) : ∃ fault, self.populateWanted type response q = .error fault := by
  cases hp : self.populateWanted type response q with
  | error fault => exact ⟨fault, rfl⟩
  | ok r => exact absurd ((populateWanted_ok self type response q).mp ⟨r, hp⟩) h

theorem onFindNode_spec (q : LookupRequest) :
    RepliesIff (self.HasWanted q) msg self (self.onFindNode C type msg q) where
  replies h := by
    obtain ⟨r, hr⟩ := (populateWanted_ok self type {} q).mpr h
    unfold onFindNode
    rw [hr]
    cases q.wantToken with
    | true =>
      exact ⟨_, rfl, replied_reply (self.generateToken C msg q.target).2 ⟨rfl, rfl, rfl, rfl⟩ rfl
        ⟨nofun, fun _ => trivial⟩⟩
    | false => exact ⟨_, rfl, replied_reply self ⟨rfl, rfl, rfl, rfl⟩ rfl ⟨nofun, fun _ => trivial⟩⟩
  fails h := by
    obtain ⟨fault, hf⟩ := populateWanted_error type {} h
    exact ⟨fault, by rw [onFindNode, hf]; rfl⟩

theorem RepliesIff.congr {P Q : Prop} {result : Except Fault Node}
    (h : RepliesIff P msg self result) (hPQ : P ↔ Q) : RepliesIff Q msg self result :=
  ⟨fun hq => h.replies (hPQ.mpr hq), fun hq => h.fails fun hp => hq (hPQ.mp hp)⟩

theorem repliesIff_true {P : Prop} (hP : P) (h : Replied msg self after) :
    RepliesIff P msg self (.ok after) :=
  ⟨fun _ => ⟨after, rfl, h⟩, fun hn => absurd hP hn⟩

/-- A reply with the closest nodes. -/
theorem repliesIff_populate (type : Network) (msg : Message) {mid : Node} (h : SameShell self mid)
    (hsent : mid.sent = self.sent) (q : LookupRequest) (response : LookupResponse)
    {f : LookupResponse → Content}
    (hf : ∀ r, Replying (f r)) :
    RepliesIff (self.HasWanted q) msg self (do
      let response ← mid.populateWanted type response q
      return mid.reply msg (f response)) := by
  have hwanted : mid.HasWanted q ↔ self.HasWanted q := by rw [HasWanted, HasWanted, h.dht4, h.dht6]
  refine RepliesIff.congr ⟨fun hw => ?_, fun hw => ?_⟩ hwanted
  · obtain ⟨r, hr⟩ := (populateWanted_ok mid type response q).mpr hw
    rw [hr]
    exact ⟨_, rfl, replied_reply mid h hsent (hf r)⟩
  · obtain ⟨fault, hfault⟩ := populateWanted_error type response hw
    rw [hfault]
    exact ⟨fault, rfl⟩

theorem onFindValue_spec (q : LookupRequest) (seq : Int32) :
    RepliesIff ((∃ v, self.storage.values.getValue self.server.now q.target = .ok (some v) ∧
      (servedValue seq (some v)).isSome = true) ∨ self.HasWanted q) msg self
      (self.onFindValue C type msg q seq) := by
  obtain ⟨value, hvalue⟩ := self.storage.getValue_ok self.server.now q.target
  unfold onFindValue
  dsimp only [generateToken]
  simp only [hvalue, throwing]
  dsimp only [bind, Except.bind]
  cases hs : servedValue seq value with
  | some v =>
    have hv : value = some v := (Option.filter_eq_some_iff.mp hs).1
    subst hv
    refine repliesIff_true (.inl ⟨v, rfl, by rw [hs]; rfl⟩) (replied_reply _ ?_ rfl ?_)
    · exact ⟨rfl, rfl, rfl, rfl⟩
    · exact ⟨(fun h => by cases h), fun B => printable_setValue B v⟩
  | none =>
    have hwanted := repliesIff_populate type msg (sameShell_generateToken C self msg self.id) rfl q
      { token := (self.generateToken C msg self.id).1 } (f := fun r => .findValueResponse r {})
      fun _ => ⟨(fun h => by cases h), fun _ h => by cases h⟩
    refine hwanted.congr ⟨.inr, fun h => h.resolve_left ?_⟩
    rintro ⟨v, hv, hsome⟩
    cases hv
    rw [hs] at hsome
    cases hsome

theorem onFindPeers_spec (q : LookupRequest) :
    RepliesIff (self.storage.peers.liveRows self.server.now q.target ≠ [] ∨
      self.HasWanted q) msg self
      (self.onFindPeers C R type msg q) := by
  obtain ⟨peers, hpeers, hempty⟩ := self.storage.getPeer_ok C R self.server.now q.target
  unfold onFindPeers
  dsimp only [generateToken]
  simp only [hpeers, throwing]
  change RepliesIff _ _ _ (if peers ≠ [] then _ else _)
  split_ifs with hne
  · refine repliesIff_true (.inl (mt hempty.mpr hne))
      (replied_reply _ ?_ rfl ⟨(fun h => by cases h), fun _ => trivial⟩)
    exact ⟨rfl, rfl, rfl, rfl⟩
  · have hwanted := repliesIff_populate type msg (sameShell_generateToken C self msg q.target) rfl q
      { token := (self.generateToken C msg q.target).1 } (f := fun r => .findPeerResponse r [])
      fun _ => ⟨(fun h => by cases h), fun _ => trivial⟩
    exact hwanted.congr ⟨.inr, fun h => h.resolve_left fun hrows =>
      hrows (hempty.mp (not_not.mp hne))⟩

theorem checkPut_ok_iff (self : Node) {v : Value} (hv : v.isValid C = true) (expectedSeq : Int32) :
    (∃ old, self.storage.values.checkPut C self.server.now v expectedSeq = .ok old) ↔
      TakesValue C self v expectedSeq := by
  obtain ⟨old, hold⟩ := self.storage.getValue_ok self.server.now (v.getId C)
  unfold ValueTable.checkPut TakesValue
  rw [hold]
  cases old with
  | none => simp [hv]
  | some old =>
    by_cases hm : old.isMutable = true
    · cases hc : ValueTable.checkOld v expectedSeq old <;> simp [hv, hm, hc, Except.map]
    · simp [hv, hm]

theorem onStoreValue_spec (q : StoreValueRequest) :
    RepliesIff (∃ v, q.getValue = .ok v ∧ (TakesToken C self msg q.token (v.getId C) →
      v.isValid C = true → TakesValue C self v q.expectedSequenceNumber)) msg self
      (self.onStoreValue C msg q) := by
  unfold onStoreValue
  cases hq : q.getValue with
  | error e => exact ⟨by simp, fun _ => ⟨.exception e, rfl⟩⟩
  | ok v =>
    simp only [Except.ok.injEq, exists_eq_left']
    dsimp only [throwing, verifyToken]
    change RepliesIff _ _ _ (if (!_) = true then _ else _)
    have hshell := sameShell_verifyToken C self msg q.token (v.getId C)
    split_ifs with htoken hvalid
    · refine repliesIff_true (fun ht => ?_) (replied_sendError _ hshell rfl _ _)
      simp [TakesToken] at ht
      simp [ht] at htoken
    · have htake := checkPut_ok_iff self hvalid q.expectedSequenceNumber
      have htoken' : TakesToken C self msg q.token (v.getId C) := by simpa [TakesToken] using htoken
      simp only [htoken', hvalid, true_implies, ← htake]
      obtain ⟨e, hcheck, hput⟩ | ⟨old, an, hcheck, hput⟩ :=
        ValueTable.putValue_cases C self.storage.values self.server.now v
          q.expectedSequenceNumber false false
      · refine ⟨by simp [hcheck], fun _ => ⟨.exception e, ?_⟩⟩
        simp only [Storage.putValue, hput]
        rfl
      · let stored : Node := { (self.verifyToken C msg q.token (v.getId C)).2 with
          storage := (self.storage.putValue C self.server.now v hvalid q.expectedSequenceNumber).2 }
        have hres : (self.storage.putValue C self.server.now v hvalid q.expectedSequenceNumber).1 =
            .ok () := by
          simp only [Storage.putValue, hput]
          rfl
        refine ⟨fun _ => ⟨stored.reply msg .storeValueResponse, ?_, ?_⟩, fun h =>
          absurd ⟨old, hcheck⟩ h⟩
        · rw [hres]
          rfl
        · exact replied_reply stored ⟨rfl, rfl, rfl, rfl⟩ rfl ⟨nofun, fun _ => trivial⟩
    · exact repliesIff_true (fun _ hv => absurd hv hvalid) (replied_sendError _ hshell rfl _ _)

theorem onAnnouncePeer_spec (q : AnnouncePeerRequest) (hbogon : msg.origin.isBogon = some false) :
    RepliesIff (TakesToken C self msg q.token q.peerId →
      q.port ≠ 0 ∧ q.signature.length = SIGNATURE_BYTES) msg self
        (self.onAnnouncePeer C msg q) := by
  have hshell := sameShell_verifyToken C self msg q.token q.peerId
  have hpeer :=
    PeerInfo.of_ids C q.peerId (q.nodeId.getD msg.id) msg.id q.port q.alternativeURL q.signature
  unfold onAnnouncePeer
  simp only [isBogon, hbogon]
  dsimp only [verifyToken]
  change RepliesIff _ _ _ (if (!_) = true then _ else _)
  split_ifs with htoken
  · refine repliesIff_true (fun ht => ?_) (replied_sendError _ hshell rfl _ _)
    simp [TakesToken] at ht
    simp [ht] at htoken
  · have htoken' : TakesToken C self msg q.token q.peerId := by simpa [TakesToken] using htoken
    simp only [htoken', true_implies, ← hpeer]
    cases hp : q.getPeer C msg.id with
    | error e =>
      refine ⟨fun ⟨p, hok⟩ => ?_, fun _ => ⟨.exception e, rfl⟩⟩
      rw [AnnouncePeerRequest.getPeer, hok] at hp
      cases hp
    | ok peer =>
      let stored : Node := { (self.verifyToken C msg q.token q.peerId).2 with
        storage := self.storage.putPeer self.server.now peer }
      exact repliesIff_true ⟨peer, hp⟩ (replied_reply stored ⟨rfl, rfl, rfl, rfl⟩ rfl
        ⟨nofun, fun _ => trivial⟩)

theorem isBogon_of_not_ignored {q : AnnouncePeerRequest} (hc : msg.content = .announcePeerRequest q)
    (hvalid : msg.origin.isValid = true) (h : isIgnored msg = false) :
    msg.origin.isBogon = some false := by
  obtain ⟨b, hb⟩ := Option.isSome_iff_exists.mp (SocketAddress.isBogon_isSome hvalid)
  cases b with
  | false => exact hb
  | true => simp [isIgnored, hc, hb] at h

/-- A request that is not ignored gets its reply if it can be served. -/
theorem onRequest_spec (C : Crypto) (R : RandomOrder) (self : Node) (type : Network)
    (hreq : msg.getType = .request) (hvalid : msg.origin.isValid = true)
    (h : isIgnored msg = false) :
    RepliesIff (Servable C self msg) msg self (self.onRequest C R type msg) := by
  unfold onRequest Servable
  cases hc : msg.content with
  | pingRequest => exact onPing_spec
  | findNodeRequest q => exact onFindNode_spec q
  | findValueRequest q seq => exact onFindValue_spec q seq
  | storeValueRequest q => exact onStoreValue_spec q
  | findPeerRequest q => exact onFindPeers_spec q
  | announcePeerRequest q => exact onAnnouncePeer_spec q (isBogon_of_not_ignored hc hvalid h)
  | _ => simp [Message.getType, hc] at hreq

theorem onRequest_ignored (C : Crypto) (R : RandomOrder) (self : Node) (type : Network)
    (h : isIgnored msg = true) :
    self.onRequest C R type msg = .ok self ∧ msg.origin.isBogon = some true := by
  unfold isIgnored at h
  split at h
  · next q hc =>
    have hbogon := of_decide_eq_true h
    refine ⟨?_, hbogon⟩
    simp only [onRequest, hc, onAnnouncePeer, isBogon, hbogon]
    rfl
  · cases h

/-! ## What follows the handler -/

theorem sendCall_threw (server : RPCServer) (remote : SocketAddress) :
    (server.sendCall remote false (RPCServer.exec .done)).threw =
      (server.calls.lookup (if server.nextTxid = 0 then
        server.nextTxid + 1 else server.nextTxid)).isSome := by
  -- a call whose handlers do nothing is sent, once it has its transaction id
  have hsent (s : RPCServer) (c : Nat) (txid : Int32) :
      (if (s.calls.lookup txid).isSome then Res.thrown s
        else ((s.register c txid).updateState c .sent (RPCServer.exec .done)).andThen fun s =>
          Res.ok (s.schedule c 2000)).threw = (s.calls.lookup txid).isSome := by
    split_ifs with hused
    · exact hused.symm
    · rw [Bool.not_eq_true] at hused
      rw [hused]
      rfl
  by_cases h0 : server.nextTxid = 0
  · rw [if_pos h0, RPCServer.sendCall, RPCServer.takeTxid,
      if_pos (show (server.newCall remote).nextTxid = 0 from h0)]
    exact hsent _ _ _
  · rw [if_neg h0, RPCServer.sendCall, RPCServer.takeTxid,
      if_neg (show (server.newCall remote).nextTxid ≠ 0 from h0)]
    exact hsent _ _ _

/-- What `received` may send is no reply. -/
def SendsNoReply (a b : Node) : Prop :=
  ∃ out, b.sent = a.sent ++ out ∧ ∀ o ∈ out, o.isReply = false

theorem sendsNoReply_of_eq {a b : Node} (h : b.sent = a.sent) : SendsNoReply a b :=
  ⟨[], by simp [h], by simp⟩

theorem setDHT_sent (dht : DHT) : (self.setDHT dht type).sent = self.sent := by
  cases type <;> rfl

/-- `received` for a request from an address that is no bogon. -/
theorem received_request {dht : DHT} (hb : msg.origin.isBogon = some false) :
    self.received type dht msg none =
      if (dht.routingTable.getEntry msg.id).any fun old => old.sockaddr ≠ msg.origin then .ok self
      else match dht.impostor msg.origin msg.id with
        | some known =>
          .ok (self.setDHT ((dht.remove self.now known).setKnown msg.origin msg.id) type)
        | none => self.enlist type dht msg none (dht.routingTable.getEntry msg.id) := by
  simp only [received, isBogon, hb]
  rfl

/-- The ping to a new node fails exactly if its transaction id is in use. -/
theorem enlist_new_spec (dht : DHT) :
    (self.server.calls.lookup self.upcomingTxid = none →
      ∃ after, self.enlist type dht msg none none = .ok after ∧ SendsNoReply self after) ∧
    (self.server.calls.lookup self.upcomingTxid ≠ none →
      ∃ fault, self.enlist type dht msg none none = .error fault) := by
  have hthrew : (self.server.sendCall msg.origin false (RPCServer.exec .done)).threw =
      (self.server.calls.lookup self.upcomingTxid).isSome := sendCall_threw self.server msg.origin
  unfold enlist sendPing
  constructor
  · intro hfree
    rw [hfree] at hthrew
    simp only [hthrew]
    refine ⟨_, rfl, [_], (setDHT_sent _).trans rfl, ?_⟩
    simp [Outgoing.isReply, Message.getType]
  · intro hused
    rw [Option.isSome_iff_ne_none.mpr hused] at hthrew
    simp only [hthrew]
    exact ⟨_, rfl⟩

/-- `received` fails only in its ping. -/
theorem received_spec {dht : DHT} (hvalid : msg.origin.isValid = true) :
    (PingFree self dht msg → ∃ after, self.received type dht msg none = .ok after ∧
      SendsNoReply self after) ∧
      (¬ PingFree self dht msg → ∃ fault, self.received type dht msg none = .error fault) := by
  have hstored (dht : DHT) : SendsNoReply self (self.setDHT dht type) :=
    sendsNoReply_of_eq (setDHT_sent dht)
  obtain ⟨bogon, hb⟩ := Option.isSome_iff_exists.mp (SocketAddress.isBogon_isSome hvalid)
  cases bogon with
  | true =>
    refine ⟨fun _ => ⟨self, ?_, sendsNoReply_of_eq rfl⟩, fun h => absurd (fun hf => ?_) h⟩
    · simp only [received, isBogon, hb]
      rfl
    · rw [hb] at hf
      cases hf
  | false =>
    rw [received_request hb]
    unfold PingFree
    cases hold : dht.routingTable.getEntry msg.id with
    | some old =>
      refine ⟨fun _ => ?_, fun h => absurd (fun _ hn => by cases hn) h⟩
      split_ifs
      · exact ⟨self, rfl, sendsNoReply_of_eq rfl⟩
      · cases dht.impostor msg.origin msg.id with
        | some known => exact ⟨_, rfl, hstored _⟩
        | none => exact ⟨_, rfl, hstored _⟩
    | none =>
      cases himp : dht.impostor msg.origin msg.id with
      | some known =>
        exact ⟨fun _ => ⟨_, rfl, hstored _⟩, fun h => absurd (fun _ _ hn => by cases hn) h⟩
      | none =>
        simp only [hb, true_implies]
        exact enlist_new_spec dht

/-! ## The whole -/

theorem repliesSince_eq {before : Node} {out : List Outgoing}
    (h : after.sent = before.sent ++ out) :
    repliesSince before after = out.filter Outgoing.isReply := by
  rw [repliesSince, h, List.drop_left]

section OnMessage

variable {dht : DHT}

theorem onMessage_stopped (h : dht.running = false) :
    self.onMessage C R type dht msg none = .ok self := by
  simp only [onMessage, h]
  rfl

theorem onMessage_running (hself : msg.id ≠ self.id ∧ msg.origin ≠ dht.addr)
    (h : dht.running = true) :
    self.onMessage C R type dht msg none =
      self.onRequest C R type msg >>= fun mid => mid.received type dht msg none := by
  simp [onMessage, h, hself.1, hself.2]

/-- A request that is ignored, or comes to a DHT that is not running, is dropped. -/
theorem onMessage_silent (hself : msg.id ≠ self.id ∧ msg.origin ≠ dht.addr)
    (h : dht.running = false ∨ isIgnored msg = true) :
    self.onMessage C R type dht msg none = .ok self := by
  cases hrun : dht.running with
  | false => exact onMessage_stopped hrun
  | true =>
    obtain ⟨hreq, hbogon⟩ := onRequest_ignored C R self type (h.resolve_left (by simp [hrun]))
    rw [onMessage_running hself hrun, hreq]
    simp only [received, isBogon, hbogon]
    rfl

/-- Any other request gets one reply, if the handler and the ping do not fail. -/
theorem onMessage_answers (hreq : msg.getType = .request) (hvalid : msg.origin.isValid = true)
    (hself : msg.id ≠ self.id ∧ msg.origin ≠ dht.addr) (hrun : dht.running = true)
    (hign : isIgnored msg = false) (hserve : Servable C self msg) (hping : PingFree self dht msg) :
    ∃ after r out, self.onMessage C R type dht msg none = .ok after ∧
      after.sent = self.sent ++ r :: out ∧
      (r :: out).filter Outgoing.isReply = [r] ∧ RepliesTo msg r := by
  obtain ⟨mid, hmid, hreplied⟩ := (onRequest_spec C R self type hreq hvalid hign).replies hserve
  obtain ⟨r, hr, hto⟩ := hreplied.sent
  have hping' : PingFree mid dht msg := by
    rw [PingFree, upcomingTxid, hreplied.server]
    exact hping
  obtain ⟨after, hafter, out, hout, hnone⟩ := (received_spec hvalid).1 hping'
  refine ⟨after, r, out, ?_, ?_, ?_, hto⟩
  · rw [onMessage_running hself hrun, hmid]
    exact hafter
  · rw [hout, hr, List.append_assoc]
    rfl
  · rw [List.filter_cons_of_pos hto.isReply, List.filter_eq_nil_iff.mpr fun o ho => by
      simp [hnone o ho]]

theorem onMessage_fails (hreq : msg.getType = .request) (hvalid : msg.origin.isValid = true)
    (hself : msg.id ≠ self.id ∧ msg.origin ≠ dht.addr) (hrun : dht.running = true)
    (hign : isIgnored msg = false) (h : ¬ (Servable C self msg ∧ PingFree self dht msg)) :
    ∃ fault, self.onMessage C R type dht msg none = .error fault := by
  have hspec := onRequest_spec C R self type hreq hvalid hign
  rw [onMessage_running hself hrun]
  by_cases hserve : Servable C self msg
  · obtain ⟨mid, hmid, hreplied⟩ := hspec.replies hserve
    have hping' : ¬ PingFree mid dht msg := by
      rw [PingFree, upcomingTxid, hreplied.server]
      exact fun hping => h ⟨hserve, hping⟩
    rw [hmid]
    exact (received_spec hvalid).2 hping'
  · obtain ⟨fault, hfault⟩ := hspec.fails hserve
    exact ⟨fault, by rw [hfault]; rfl⟩

/-- The reply to a transaction id of 0 changes nothing else. -/
theorem checkTxid_zero (hreq : msg.getType = .request) (h : msg.txid = 0) :
    Replied msg self (self.checkTxid msg) := by
  rw [checkTxid, if_pos ⟨by rw [hreq]; nofun, h⟩]
  exact replied_sendError self ⟨rfl, rfl, rfl, rfl⟩ rfl _ _

theorem checkTxid_nonzero (h : msg.txid ≠ 0) : self.checkTxid msg = self := if_neg fun hc => h hc.2

theorem dispatch_eq (hdht : self.getDHT (Network.of msg.origin) = some dht) :
    self.dispatch C R msg =
      (self.checkTxid msg).onMessage C R (Network.of msg.origin) dht msg none := by
  have hsame : (self.checkTxid msg).getDHT (Network.of msg.origin) = some dht := by
    rw [← hdht, checkTxid]
    split_ifs
    · cases Network.of msg.origin <;> rfl
    · rfl
  rw [dispatch, handleMessage, hsame]

/-- A result that sends nothing. -/
theorem answered_silent : Answered self msg (.ok self) ↔ isIgnored msg = true := by
  have hnone : repliesSince self self = [] := repliesSince_eq (List.append_nil _).symm
  unfold Answered
  simp only [Except.ok.injEq, exists_eq_left', hnone]
  split_ifs with h
  · simp [h]
  · simp [h]

theorem not_answered_error (fault : Fault) : ¬ Answered self msg (.error fault) := by
  rintro ⟨after, h, -⟩
  cases h

/-- What a request with a transaction id gets. -/
theorem answered_onMessage (hreq : msg.getType = .request) (hvalid : msg.origin.isValid = true)
    (hself : msg.id ≠ self.id ∧ msg.origin ≠ dht.addr) :
    Answered self msg (self.onMessage C R type dht msg none) ↔
      if isIgnored msg then True
      else if dht.running then Servable C self msg ∧ PingFree self dht msg
      else False := by
  split_ifs with hign hrun
  · rw [onMessage_silent hself (.inr hign)]
    simp [answered_silent, hign]
  · rw [Bool.not_eq_true] at hign
    by_cases h : Servable C self msg ∧ PingFree self dht msg
    · obtain ⟨after, r, out, hafter, hsent, hone, hto⟩ :=
        onMessage_answers (C := C) (R := R) hreq hvalid hself hrun hign h.1 h.2
      refine iff_of_true ⟨after, hafter, ?_⟩ h
      rw [hign, repliesSince_eq hsent, hone]
      exact ⟨r, rfl, hto⟩
    · obtain ⟨fault, hfault⟩ := onMessage_fails (C := C) (R := R) hreq hvalid hself hrun hign h
      rw [hfault]
      exact iff_of_false (not_answered_error fault) h
  · rw [Bool.not_eq_true] at hrun
    rw [onMessage_stopped hrun]
    simp [answered_silent, hign]

/-- What a request without one gets, after the error. -/
theorem answered_onMessage_error {err : Node} (herr : Replied msg self err)
    (hreq : msg.getType = .request) (hvalid : msg.origin.isValid = true)
    (hself : msg.id ≠ self.id ∧ msg.origin ≠ dht.addr) :
    Answered self msg (err.onMessage C R type dht msg none) ↔
      isIgnored msg = false ∧ dht.running = false := by
  obtain ⟨e, he, hto⟩ := herr.sent
  have hself' : msg.id ≠ err.id ∧ msg.origin ≠ dht.addr := by rwa [herr.id]
  have hone : repliesSince self err = [e] := by
    rw [repliesSince_eq he, List.filter_cons_of_pos hto.isReply, List.filter_nil]
  cases hign : isIgnored msg with
  | true =>
    rw [onMessage_silent hself' (.inr hign)]
    simp [Answered, hign, hone]
  | false =>
    cases hrun : dht.running with
    | false =>
      rw [onMessage_stopped hrun]
      simp [Answered, hign, hone, hto]
    | true =>
      refine iff_of_false ?_ (by simp)
      by_cases h : Servable C err msg ∧ PingFree err dht msg
      · obtain ⟨after, r, out, hafter, hsent, hreply, -⟩ :=
          onMessage_answers (C := C) (R := R) hreq hvalid hself' hrun hign h.1 h.2
        -- the error and the reply
        have htwo : repliesSince self after = [e, r] := by
          rw [he, List.append_assoc] at hsent
          rw [repliesSince_eq hsent, List.filter_append, hreply,
            List.filter_cons_of_pos hto.isReply]
          rfl
        rw [hafter]
        simp [Answered, hign, htwo]
      · obtain ⟨fault, hfault⟩ := onMessage_fails (C := C) (R := R) hreq hvalid hself' hrun hign h
        rw [hfault]
        exact not_answered_error fault

/-- When a request gets what it is owed. -/
theorem dispatch_answered_iff (C : Crypto) (R : RandomOrder) (self : Node)
    (msg : Message) (dht : DHT) (hreq : msg.getType = .request) (hvalid : msg.origin.isValid = true)
    (hdht : self.getDHT (Network.of msg.origin) = some dht)
    (hself : msg.id ≠ self.id ∧ msg.origin ≠ dht.addr) :
    Answered self msg (self.dispatch C R msg) ↔
      if isIgnored msg then msg.txid ≠ 0
      else if dht.running then msg.txid ≠ 0 ∧ Servable C self msg ∧ PingFree self dht msg
      else msg.txid = 0 := by
  rw [dispatch_eq hdht]
  by_cases h0 : msg.txid = 0
  · rw [answered_onMessage_error (checkTxid_zero hreq h0) hreq hvalid hself]
    cases isIgnored msg <;> cases dht.running <;> simp [h0]
  · rw [checkTxid_nonzero h0, answered_onMessage hreq hvalid hself]
    cases isIgnored msg <;> cases dht.running <;> simp [h0]

end OnMessage

/-- A node with a DHT for IPv4 only. -/
def inetNode : Node where
  id := Id.zero
  dht4 := some
    { addr := .inet ⟨[198, 51, 100, 1], rfl⟩ 39001
      routingTable := RoutingTable.init Id.zero
      table_ok := RoutingTable.init_inv Id.zero }
  tokenManager := { previousTimestamp := 0, sessionSecret := ⟨List.replicate 32 0, rfl⟩ }
  server := RPCServer.init 0 false 1

/-- A request to it from a public address. -/
def inetRequest (content : Content) : Message where
  id := ⟨List.replicate 32 5, Eq.refl 32⟩
  origin := .inet ⟨[20, 51, 100, 7], by simp⟩ 39001
  txid := 1
  content := content

theorem dispatch_ping_answered :
    Answered inetNode (inetRequest .pingRequest)
      (inetNode.dispatch ⟨fun _ => Id.zero, fun _ _ _ => false, fun s => s⟩
        ⟨fun rows => rows, fun _ => .rfl⟩
        (inetRequest .pingRequest)) := by
  refine (dispatch_answered_iff _ _ inetNode (inetRequest .pingRequest) _ rfl rfl rfl ?_).mpr ?_
  · exact ⟨by decide, by decide⟩
  · exact ⟨by decide, trivial, fun _ _ _ => rfl⟩

/-- A `FIND_NODE` request that wants IPv6 nodes, to a node with a DHT for IPv4 only: the other DHT,
which is not there, is used. -/
theorem dispatch_want6_not_answered :
    ¬ Answered inetNode (inetRequest (.findNodeRequest { want6 := true }))
      (inetNode.dispatch ⟨fun _ => Id.zero, fun _ _ _ => false, fun s => s⟩
        ⟨fun rows => rows, fun _ => .rfl⟩ (inetRequest (.findNodeRequest { want6 := true }))) :=
  not_answered_error .nullDereference

end Node

end Boson
