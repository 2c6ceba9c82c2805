import Boson.Node.Answers

/-!
# Tokens, from a lookup to a store

A node that answers a lookup hands out a token, and the same node checks it when the asking node
stores a value or announces a peer. Both are bound to the asking node, its address and a target.

* `token_taken_iff`: a token is taken for the target of the lookup, as long as its stamp is one of
  the two, except for a `FIND_VALUE`: its token is bound to the id of this node.
-/

namespace Boson

open FoldM

namespace Node

/-- The lookup requests whose responses carry a token. -/
def asksToken : Content → Option LookupRequest
  | .findNodeRequest q => if q.wantToken then some q else none
  | .findValueRequest q _ | .findPeerRequest q => some q
  | _ => none

/-- The token of a request to store, and what it has to be bound to. -/
def storeTarget (C : Crypto) : Content → Option (Int32 × Id)
  | .storeValueRequest q => q.getValue.toOption.map fun v => (q.token, v.getId C)
  | .announcePeerRequest q => some (q.token, q.peerId)
  | _ => none

/-- The check of the token in `onStoreValue` and `onAnnouncePeer`. -/
def tokenCheck (C : Crypto) (self : Node) (msg : Message) : Option Bool :=
  (storeTarget C msg.content).map fun (token, target) => (self.verifyToken C msg token target).1

/-- What the token of a lookup is bound to. -/
def boundTarget (self : Node) (msg : Message) (q : LookupRequest) : Id :=
  if msg.getMethod = .findValue then self.id else q.target

/-- The stamp of a token is still one of the two that it is compared with. -/
structure StampHeld (issued later : TokenManager) (now : UInt64) : Prop where
  secret : later.sessionSecret = issued.sessionSecret
  stamp : issued.timestamp = (later.updateTokenTimestamps now).timestamp ∨
    issued.timestamp = (later.updateTokenTimestamps now).previousTimestamp

variable {C : Crypto} {R : RandomOrder} {self after later : Node} {type : Network}
  {msg store : Message} {q : LookupRequest} {r : Outgoing} {l : LookupResponse}

/-- A handler that refuses the token answers with an error. -/
theorem onRequest_refuses (C : Crypto) (R : RandomOrder) (type : Network)
    (h : self.tokenCheck C msg = some false) (hbogon : msg.origin.isBogon = some false) :
    ∃ mid text, mid.sent = self.sent ∧
      self.onRequest C R type msg = .ok (sendError mid msg PROTOCOL_ERROR text) := by
  unfold tokenCheck storeTarget at h
  unfold onRequest
  cases hc : msg.content with
  | storeValueRequest q =>
    rw [hc] at h
    cases hv : q.getValue with
    | error e => simp [hv, Except.toOption] at h
    | ok v =>
      simp only [hv, Except.toOption, Option.map_some, Option.some.injEq] at h
      refine ⟨(self.verifyToken C msg q.token (v.getId C)).2,
        "Invalid token for STORE VALUE request", rfl, ?_⟩
      simp only [onStoreValue, throwing, hv]
      change (if (!(self.verifyToken C msg q.token (v.getId C)).1) = true then _ else _) = _
      rw [h]
      rfl
  | announcePeerRequest q =>
    rw [hc] at h
    simp only [Option.map_some, Option.some.injEq] at h
    refine ⟨(self.verifyToken C msg q.token q.peerId).2,
      "Invalid token for ANNOUNCE PEER request", rfl, ?_⟩
    simp only [onAnnouncePeer, isBogon, hbogon]
    change (if (!(self.verifyToken C msg q.token q.peerId).1) = true then _ else _) = _
    rw [h]
    rfl
  | _ => simp [hc] at h

/-! ## What the handlers of lookups hand out -/

/-- The token of a response is of the current stamp, for the asking node and the target. -/
structure Issued (C : Crypto) (self after : Node) (msg : Message) (target : Id)
    (token : Int32) : Prop where
  manager : after.tokenManager = self.tokenManager.updateTokenTimestamps self.now
  token_eq : token = after.tokenManager.tokenAt C msg.id msg.origin target
    after.tokenManager.timestamp

/-- The only message that was sent since. -/
theorem content_of_reply {mid : Node} {content : Content} (hmid : mid.sent = self.sent)
    (hsent : (mid.reply msg content).sent = self.sent ++ [r]) : r.message.content = content := by
  rw [reply, hmid] at hsent
  obtain ⟨rfl⟩ := List.append_cancel_left hsent
  rfl

theorem issued_reply {target : Id} {content : Content}
    (hsent : ((self.generateToken C msg target).2.reply msg content).sent = self.sent ++ [r])
    (hl : r.message.lookupResponse? = some l)
    (hc : ∀ l, ({ content := content } : Message).lookupResponse? = some l →
      l.token = (self.generateToken C msg target).1) :
    Issued C self ((self.generateToken C msg target).2.reply msg content) msg target l.token := by
  refine ⟨rfl, hc l ?_⟩
  have hsame : (self.generateToken C msg target).2.sent = self.sent := rfl
  have hcontent := content_of_reply hsame hsent
  rw [← hl, Message.lookupResponse?, Message.lookupResponse?, hcontent]

theorem populateClosestNodes_token {response response' : LookupResponse} {target : Id} {v4 v6 : Nat}
    (h : self.populateClosestNodes type response target v4 v6 = .ok response') :
    response'.token = response.token := by
  have hnodes6 {mid : LookupResponse}
      (h : (if v6 > 0 then (fun nodes => { mid with nodes6 := nodes }) <$> self.closestNodes type
        .ipv6 target v6
        else .ok mid) = .ok response') : response'.token = mid.token := by
    split_ifs at h
    · obtain ⟨nodes, -, rfl⟩ := map_eq_ok_iff.mp h
      rfl
    · cases h
      rfl
  unfold populateClosestNodes at h
  by_cases h4 : v4 > 0
  · simp only [if_pos h4] at h
    obtain ⟨mid, hmid, h⟩ := bind_eq_ok_iff.mp h
    obtain ⟨nodes, -, rfl⟩ := map_eq_ok_iff.mp hmid
    have htoken := hnodes6 h
    exact htoken
  · simp only [if_neg h4] at h
    exact hnodes6 h

theorem onFindNode_issued (hwant : q.wantToken = true)
    (hok : self.onFindNode C type msg q = .ok after) (hsent : after.sent = self.sent ++ [r])
    (hl : r.message.lookupResponse? = some l) :
    Issued C self after msg q.target l.token := by
  obtain ⟨response, -, hok⟩ := bind_eq_ok_iff.mp hok
  rw [if_pos hwant] at hok
  cases hok
  refine issued_reply hsent hl fun l hl => ?_
  cases hl
  rfl

theorem onFindValue_issued {seq : Int32} (hok : self.onFindValue C type msg q seq = .ok after)
    (hsent : after.sent = self.sent ++ [r]) (hl : r.message.lookupResponse? = some l) :
    Issued C self after msg self.id l.token := by
  obtain ⟨value, -, hok⟩ := bind_eq_ok_iff.mp hok
  split at hok
  · cases hok
    refine issued_reply hsent hl fun l hl => ?_
    cases hl
    rfl
  · obtain ⟨response, hresponse, hok⟩ := bind_eq_ok_iff.mp hok
    cases hok
    refine issued_reply hsent hl fun l hl => ?_
    cases hl
    exact populateClosestNodes_token hresponse

theorem onFindPeers_issued (hok : self.onFindPeers C R type msg q = .ok after)
    (hsent : after.sent = self.sent ++ [r]) (hl : r.message.lookupResponse? = some l) :
    Issued C self after msg q.target l.token := by
  obtain ⟨peers, -, hok⟩ := bind_eq_ok_iff.mp hok
  split_ifs at hok
  · cases hok
    refine issued_reply hsent hl fun l hl => ?_
    cases hl
    rfl
  · obtain ⟨response, hresponse, hok⟩ := bind_eq_ok_iff.mp hok
    cases hok
    refine issued_reply hsent hl fun l hl => ?_
    cases hl
    exact populateClosestNodes_token hresponse

/-- Which triple the token of a lookup is bound to. -/
theorem onRequest_issued (hq : asksToken msg.content = some q)
    (hok : self.onRequest C R type msg = .ok after) (hsent : after.sent = self.sent ++ [r])
    (hl : r.message.lookupResponse? = some l) :
    Issued C self after msg (self.boundTarget msg q) l.token := by
  unfold onRequest at hok
  unfold boundTarget Message.getMethod
  cases hc : msg.content with
  | findNodeRequest q' =>
    rw [hc] at hok hq
    simp only [asksToken, Option.ite_none_right_eq_some, Option.some.injEq] at hq
    obtain ⟨hwant, rfl⟩ := hq
    exact onFindNode_issued hwant hok hsent hl
  | findValueRequest q' seq =>
    rw [hc] at hok hq
    cases hq
    exact onFindValue_issued hok hsent hl
  | findPeerRequest q' =>
    rw [hc] at hok hq
    cases hq
    exact onFindPeers_issued hok hsent hl
  | _ => simp [hc, asksToken] at hq

/-- The tokens for two different targets differ, whichever of the stamps they are made with. -/
def NoCollision (C : Crypto) (self : TokenManager) (msg : Message) (target target' : Id)
    (stamps : List UInt64) : Prop :=
  target ≠ target' → ∀ s ∈ stamps, ∀ s' ∈ stamps,
    self.tokenAt C msg.id msg.origin target s ≠ self.tokenAt C msg.id msg.origin target' s'

/-- The token of a lookup for a target is taken from its node for that target, unless it is the
token of a `FIND_VALUE` for another target than this node itself. -/
theorem token_taken_iff (C : Crypto) (R : RandomOrder) (self after later : Node) (type : Network)
    (msg store : Message) (q : LookupRequest) (r : Outgoing) (l : LookupResponse)
    (hq : asksToken msg.content = some q) (hok : self.onRequest C R type msg = .ok after)
    (hsent : after.sent = self.sent ++ [r]) (hl : r.message.lookupResponse? = some l)
    (hheld : StampHeld after.tokenManager later.tokenManager later.now)
    (hfrom : store.id = msg.id ∧ store.origin = msg.origin)
    (hstore : storeTarget C store.content = some (l.token, q.target))
    (hhash : NoCollision C after.tokenManager msg self.id q.target
      [(later.tokenManager.updateTokenTimestamps later.now).timestamp,
        (later.tokenManager.updateTokenTimestamps later.now).previousTimestamp]) :
    later.tokenCheck C store = some true ↔ (msg.getMethod = .findValue → q.target = self.id) := by
  obtain ⟨-, htoken⟩ := onRequest_issued hq hok hsent hl
  let tokenAt := after.tokenManager.tokenAt C msg.id msg.origin
  let verified := later.tokenManager.updateTokenTimestamps later.now
  have hcheck : later.tokenCheck C store = some true ↔
      l.token = tokenAt q.target verified.timestamp ∨
        l.token = tokenAt q.target verified.previousTimestamp := by
    rw [tokenCheck, hstore, Option.map_some, Option.some.injEq]
    refine (TokenManager.verifyToken_iff _ C later.now _ _ _ _).trans ?_
    rw [hfrom.1, hfrom.2, TokenManager.tokenAt_congr C hheld.secret]
  have hsame (htarget : self.boundTarget msg q = q.target) :
      l.token = tokenAt q.target verified.timestamp ∨
        l.token = tokenAt q.target verified.previousTimestamp := by
    rw [htarget] at htoken
    exact hheld.stamp.imp (fun h => htoken.trans (congrArg _ h)) fun h =>
      htoken.trans (congrArg _ h)
  rw [hcheck]
  by_cases hmethod : msg.getMethod = .findValue
  · by_cases htarget : q.target = self.id
    · exact iff_of_true (hsame (by rw [boundTarget, if_pos hmethod, htarget])) fun _ => htarget
    · -- the token is of one of the two stamps, for another target
      have hdiffer := hhash (Ne.symm htarget) after.tokenManager.timestamp (by
        simp only [List.mem_cons, List.not_mem_nil, or_false]
        exact hheld.stamp)
      refine iff_of_false ?_ fun h => htarget (h hmethod)
      rw [boundTarget, if_pos hmethod] at htoken
      rintro (h | h)
      · exact hdiffer _ List.mem_cons_self (htoken.symm.trans h)
      · exact hdiffer _ (List.mem_cons_of_mem _ List.mem_cons_self) (htoken.symm.trans h)
  · exact iff_of_true (hsame (by rw [boundTarget, if_neg hmethod])) fun h => absurd h hmethod

/-- A hash that shows some bytes of the target. -/
def targetCrypto : Crypto where
  sha256 data := Id.ofFn fun i => if i = 0 then 1 else data.getD (38 + i) 0
  verify _ _ _ := false

/-- The order of the rows in the examples. -/
def storedOrder : RandomOrder := ⟨fun rows => rows, fun _ => .rfl⟩

/-- The node of the examples after a request. -/
def afterRequest (content : Content) : Node :=
  (inetNode.onRequest targetCrypto storedOrder .ipv4 (inetRequest content)).toOption.getD inetNode

/-- The token that it handed out. -/
def tokenOf (self : Node) : Int32 :=
  ((self.sent.getLast?.bind fun r => r.message.lookupResponse?).map (·.token)).getD 0

/-- A request to announce a peer with the token of an earlier request. -/
def announceWith (self : Node) (peerId : Id) : Message :=
  inetRequest (.announcePeerRequest { token := self.tokenOf, peerId := peerId, port := 80 })

theorem token_taken_findPeer :
    let after := afterRequest (.findPeerRequest { target := Id.MAX_ID })
    after.tokenCheck targetCrypto (announceWith after Id.MAX_ID) = some true := by
  intro after
  refine (token_taken_iff targetCrypto storedOrder inetNode after after .ipv4
    (inetRequest (.findPeerRequest { target := Id.MAX_ID }))
      (announceWith after Id.MAX_ID) _ _ _ rfl rfl rfl
    rfl ⟨rfl, .inl rfl⟩ ⟨rfl, rfl⟩ rfl ?_).mpr nofun
  intro _
  simp only [List.forall_mem_cons, List.not_mem_nil, false_implies, implies_true, and_true]
  decide +kernel

/-- The token of a `FIND_VALUE` is not taken for its target. -/
theorem token_refused_findValue :
    let after := afterRequest (.findValueRequest { target := Id.MAX_ID } (-1))
    ¬ after.tokenCheck targetCrypto (announceWith after Id.MAX_ID) = some true := by
  decide +kernel

end Node

end Boson
