import Boson.KClosestNodes.Home
import Boson.Node.Answers
import Boson.Node.Storage
import Boson.Task.Reach

/-!
# Lookups among nodes

A lookup whose requests are answered by nodes as they are modelled: each by its request handlers,
out of its own routing table, as the table is at that moment.

* `Resident`: a node whose table has nodes of the world, and in the bucket of the target one that is
  closer than the node itself. A bucket that does not cover the node has only such entries: there it
  is enough that one of them is listed.
* `Serves`: a response that a handler of such a node sent.
* `run_reaches_residents`: the lookup asks a node that is closest to its target.
-/

namespace Boson

open LookupTask

/-- The request of the lookup: it wants nodes of its own family (`update` of the three kinds of
lookups). -/
def Lookup.request (self : Lookup) (wantToken : Bool) : LookupRequest where
  target := self.target
  want4 := self.network = .ipv4
  want6 := self.network = .ipv6
  wantToken := wantToken

/-- What the lookup sends to a candidate. -/
def Lookup.Asks (self : Lookup) (content : Content) : Prop :=
  match self.kind with
  | .node => ∃ wantToken, content = .findNodeRequest (self.request wantToken)
  | .value => content = .findValueRequest (self.request false) self.expectedSequence
  | .peer => content = .findPeerRequest (self.request false)

namespace World

variable (W : World) (lookup : Lookup)

/-- A node of the world, as it is when it answers: its table has nodes of the world, or the one that
runs the lookup, its bootstrap nodes are nodes of the world, and in the bucket of the target there
is an entry that is closer than the node, and that may be listed, unless the node is the closest. -/
structure Resident (node : Node) (dht : DHT) : Prop where
  member : node.id ∈ W.nodes
  family : node.getDHT lookup.network = some dht
  localId : dht.routingTable.localId = node.id
  addr : dht.addr = W.address node.id
  entries : ∀ e ∈ dht.routingTable.allEntries, W.Lists lookup e.toNodeInfo
  bootstraps : ∀ n ∈ node.bootstrapNodes, lookup.network.canUseSocketAddress n.sockaddr = true →
    n.nodeId ∈ W.nodes ∧ n.sockaddr = W.address n.nodeId
  closer : ∀ c ∈ W.nodes, lookup.target.distance c < lookup.target.distance node.id →
    ∃ b ∈ dht.routingTable.buckets, b.pfx.isPrefixOf lookup.target = true ∧
      ∃ e ∈ b.entries, e.isEligibleForNodesList = true ∧ e.nodeId ≠ lookup.selfId ∧
        lookup.target.distance e.nodeId < lookup.target.distance node.id

/-- The response is what a node sent in answer to the request of the lookup, and has neither a value
nor peers. -/
def Serves (C : Crypto) (R : RandomOrder) (u : Id) (r : Responded) : Prop :=
  ∃ (node after : Node) (dht : DHT) (msg : Message) (out : Outgoing),
    W.Resident lookup node dht ∧ node.id = u ∧ lookup.Asks msg.content ∧
    node.onRequest C R lookup.network msg = .ok after ∧ after.sent = node.sent ++ [out] ∧
    r.response.id = out.message.id ∧ r.response.content = out.message.content ∧ r.onlyNodes = true

/-- What happens to a lookup among such nodes. -/
def Served (W : World) (C : Crypto) (R : RandomOrder) (t : LookupTask) : LookupEvent → Prop
  | .inject nodes | .start nodes => ∀ r ∈ nodes, W.Lists t.toLookup r.node
  | .cancel => True
  | .call key (.responded r) =>
    ∀ call, t.inFlight.find? (·.key = key) = some call → Serves W t.toLookup C R call.target r
  | .call _ .stalled => True
  | .call _ .err | .call _ .timeout => False

end World

namespace Node

variable {C : Crypto} {R : RandomOrder} {self after : Node} {msg : Message} {lookup : Lookup}

/-- The nodes in the answer to a lookup are the closest ones of its own family. -/
theorem populateWanted_nodes {response l : LookupResponse} {wantToken : Bool}
    (h : self.populateWanted lookup.network response (lookup.request wantToken) = .ok l) :
    self.closestNodes lookup.network lookup.network lookup.target MAX_ENTRIES_PER_BUCKET =
      .ok (l.getNodes lookup.network) := by
  have hpos : 0 < MAX_ENTRIES_PER_BUCKET := by decide
  unfold populateWanted populateClosestNodes at h
  cases hclosest : self.closestNodes lookup.network lookup.network lookup.target
    MAX_ENTRIES_PER_BUCKET with
  | error fault =>
    cases hnetwork : lookup.network <;>
      simp [Lookup.request, hnetwork, hpos, Bind.bind, Except.bind, Functor.map,
        Except.map] at h hclosest <;>
      simp [hclosest] at h
  | ok nodes =>
    cases hnetwork : lookup.network <;>
      simp [Lookup.request, hnetwork, hpos, Bind.bind, Except.bind, Functor.map,
        Except.map] at h hclosest <;>
      simp [hclosest] at h <;> subst h <;> rfl

/-- What is known of the answer to the request of a lookup, when it has nodes. -/
structure AnswersWith (lookup : Lookup) (self : Node) (message : Message) : Prop where
  id : message.id = self.id
  type : message.getType = .response
  method : message.getMethod = lookup.kind.method
  nodes : ∃ l, message.lookupResponse? = some l ∧
    self.closestNodes lookup.network lookup.network lookup.target MAX_ENTRIES_PER_BUCKET =
      .ok (l.getNodes lookup.network)

theorem reply_sent {mid : Node} {content : Content} {out : Outgoing} (hsent : mid.sent = self.sent)
    (hout : (mid.reply msg content).sent = self.sent ++ [out]) :
    out.message =
      { id := mid.id, txid := msg.txid, version := mid.version, content := content } := by
  rw [reply, hsent] at hout
  obtain ⟨-, heq⟩ := List.append_inj' hout rfl
  rw [← List.singleton_inj.mp heq]

/-- A reply with the nodes that the request wants. -/
theorem answersWith_populate (mid : Node) (f : LookupResponse → Content) {response : LookupResponse}
    {wantToken : Bool} {out : Outgoing} (hid : mid.id = self.id)
    (hclosest : ∀ type family target count, mid.closestNodes type family target count =
      self.closestNodes type family target count)
    (hmid : mid.sent = self.sent)
    (hok : (do
      let response ← mid.populateWanted lookup.network response (lookup.request wantToken)
      return mid.reply msg (f response)) = Except.ok after)
    (hsent : after.sent = self.sent ++ [out])
    (hf : ∀ l, (Message.getType { content := f l } = .response) ∧
      Message.getMethod { content := f l } = lookup.kind.method ∧
      ∃ l', Message.lookupResponse? { content := f l } = some l' ∧
        l'.getNodes lookup.network = l.getNodes lookup.network) :
    AnswersWith lookup self out.message := by
  cases hl : mid.populateWanted lookup.network response (lookup.request wantToken) with
  | error fault =>
    rw [hl] at hok
    cases hok
  | ok l =>
    have hnodes := populateWanted_nodes hl
    rw [hclosest] at hnodes
    rw [hl] at hok
    cases hok
    obtain ⟨htype, hmethod, l', hl', hsame⟩ := hf l
    rw [reply_sent hmid hsent]
    exact ⟨hid, htype, hmethod, l', hl', by rw [hnodes, hsame]⟩

/-- A handler that has nothing else to return answers with nodes. -/
theorem onRequest_answers {out : Outgoing} (hasks : lookup.Asks msg.content)
    (hok : self.onRequest C R lookup.network msg = .ok after)
    (hsent : after.sent = self.sent ++ [out])
    (honly : Responded.onlyNodes { response := out.message } = true) :
    AnswersWith lookup self out.message := by
  unfold onRequest at hok
  cases hkind : lookup.kind with
  | node =>
    obtain ⟨wantToken, hcontent⟩ : ∃ wantToken,
        msg.content = .findNodeRequest (lookup.request wantToken) := by
      simpa [Lookup.Asks, hkind] using hasks
    rw [hcontent] at hok
    dsimp only [onFindNode] at hok
    cases wantToken with
    | true =>
      refine answersWith_populate (self.generateToken C msg lookup.target).2
        (fun l => .findNodeResponse { l with token := (self.generateToken C msg lookup.target).1 })
        rfl (fun _ _ _ _ => rfl) rfl hok hsent
        fun l => ⟨rfl, by rw [hkind]; rfl, _, rfl, ?_⟩
      cases lookup.network <;> rfl
    | false =>
      exact answersWith_populate self .findNodeResponse rfl (fun _ _ _ _ => rfl) rfl hok hsent
        fun l => ⟨rfl, by rw [hkind]; rfl, _, rfl, rfl⟩
  | value =>
    have hcontent : msg.content = .findValueRequest (lookup.request false)
        lookup.expectedSequence := by
      simpa [Lookup.Asks, hkind] using hasks
    obtain ⟨value, hvalue⟩ := self.storage.getValue_ok self.server.now lookup.target
    rw [hcontent] at hok
    dsimp only [onFindValue, generateToken] at hok
    rw [show (lookup.request false).target = lookup.target from rfl, hvalue] at hok
    dsimp only [throwing, bind, Except.bind] at hok
    cases hserved : servedValue lookup.expectedSequence value with
    | some v =>
      -- a stored value has data, so that the response has a value
      rw [hserved] at hok
      cases hok
      rw [reply_sent rfl hsent] at honly
      obtain ⟨hstored, -⟩ := Option.filter_eq_some_iff.mp hserved
      have hdata : v.data ≠ [] := Storage.filled_of_getValue (hstored ▸ hvalue)
      have hhas : (ValueFields.setValue {} v).hasValue = true := by
        unfold ValueFields.hasValue ValueFields.setValue
        split_ifs <;> simpa using hdata
      simp [Responded.onlyNodes, hhas] at honly
    | none =>
      rw [hserved] at hok
      exact answersWith_populate (self.generateToken C msg self.id).2 (.findValueResponse · {}) rfl
        (fun _ _ _ _ => rfl) rfl hok hsent
        fun l => ⟨rfl, by rw [hkind]; rfl, _, rfl, rfl⟩
  | peer =>
    have hcontent : msg.content = .findPeerRequest (lookup.request false) := by
      simpa [Lookup.Asks, hkind] using hasks
    obtain ⟨peers, hpeers, -⟩ := self.storage.getPeer_ok C R self.server.now lookup.target
    rw [hcontent] at hok
    dsimp only [onFindPeers, generateToken] at hok
    rw [show (lookup.request false).target = lookup.target from rfl, hpeers] at hok
    dsimp only [throwing, bind, Except.bind] at hok
    split_ifs at hok with hne
    · cases hok
      rw [reply_sent rfl hsent] at honly
      simp [Responded.onlyNodes, hne] at honly
    · exact answersWith_populate (self.generateToken C msg lookup.target).2
        (.findPeerResponse · []) rfl
        (fun _ _ _ _ => rfl) rfl hok hsent
        fun l => ⟨rfl, by rw [hkind]; rfl, _, rfl, rfl⟩

end Node

namespace World

variable {W : World} {lookup : Lookup} {node : Node} {dht : DHT} {C : Crypto} {R : RandomOrder}

/-- What a node of the world lists. -/
theorem Resident.closestNodes (h : W.Resident lookup node dht) (hW : W.Sound lookup)
    {nodes : List NodeInfo}
    (hnodes : node.closestNodes lookup.network lookup.network lookup.target
    MAX_ENTRIES_PER_BUCKET = .ok nodes) :
    (∀ n ∈ nodes, W.Lists lookup n) ∧ ∀ c ∈ W.nodes,
      lookup.target.distance c < lookup.target.distance node.id →
      ∃ n ∈ nodes, n.nodeId ∈ W.nodes ∧
        lookup.target.distance n.nodeId < lookup.target.distance node.id := by
  unfold Node.closestNodes at hnodes
  rw [h.family] at hnodes
  cases hnodes
  set view : DHTView :=
    { type := lookup.network, routingTable := dht.routingTable,
      bootstrapNodes := node.bootstrapNodes, origin := dht.addr }
  set closest : KClosestNodes := { target := lookup.target, maxEntries := MAX_ENTRIES_PER_BUCKET }
  have hT : RoutingTable.Inv view.routingTable := dht.table_ok
  have hbootstraps : ∀ n ∈ KClosestNodes.usableBootstrapNodes view,
      n.nodeId ∈ W.nodes ∧ n.sockaddr = W.address n.nodeId := fun n hn =>
    h.bootstraps n (List.mem_filter.mp hn).1 (List.mem_filter.mp hn).2
  have hlists : ∀ r ∈ (closest.fill view node.now (lookup.network = lookup.network)).entries,
      W.Lists lookup r.toNodeInfo := by
    intro r hr
    obtain hr | hr | ⟨hid, haddr⟩ := KClosestNodes.mem_fill closest hT rfl hr
    · exact h.entries r hr
    · exact .inr (hbootstraps _ hr)
    · have hid' : r.nodeId = node.id := hid.trans h.localId
      refine .inr ⟨hid' ▸ h.member, ?_⟩
      rw [hid', haddr, ← h.addr]
  refine ⟨List.forall_mem_map.mpr hlists, fun c hc hlt => ?_⟩
  obtain ⟨b, hb, htarget, e, he, heligible, hes, hcloser⟩ := h.closer c hc hlt
  have hself : view.routingTable.localId ≠ lookup.selfId := fun heq =>
      hW.notSelf (heq ▸ h.localId ▸ h.member)
  have hothers : ∀ n ∈ KClosestNodes.usableBootstrapNodes view, n.nodeId ≠ lookup.selfId :=
    fun n hn heq =>
    hW.notSelf (heq ▸ (hbootstraps n hn).1)
  have hroom : 2 ≤ closest.maxEntries := by simp [closest, MAX_ENTRIES_PER_BUCKET]
  obtain ⟨r, hr, hrs, hle⟩ :=
    closest.fill_covers node.now (lookup.network = lookup.network) hT rfl hroom hothers hself hb
    htarget he heligible hes
  exact ⟨_, List.mem_map_of_mem hr, ((hlists r hr).resolve_left hrs).1, hle.trans_lt hcloser⟩

/-- What a node of the world sends is an answer. -/
theorem Serves.answers {u : Id} {r : Responded} (h : Serves W lookup C R u r)
    (hW : W.Sound lookup) :
    W.Answers lookup u r := by
  obtain ⟨node, after, dht, msg, out, hresident, rfl, hasks, hok, hsent, hid, hcontent, honly⟩ := h
  have honly' : Responded.onlyNodes { response := out.message } = true := by
    simpa [Responded.onlyNodes, hcontent] using honly
  obtain ⟨hid', htype, hmethod, l, hl, hclosest⟩ := Node.onRequest_answers hasks hok hsent honly'
  obtain ⟨hlists, hcloser⟩ := hresident.closestNodes hW hclosest
  have hnodes : r.nodes lookup.network = l.getNodes lookup.network := by
    have hl' : r.response.lookupResponse? = some l := by
      rw [← hl, Message.lookupResponse?, Message.lookupResponse?, hcontent]
    rw [Responded.nodes, hl']
  refine ⟨?_, honly, by rwa [hnodes], by rwa [hnodes]⟩
  have htype' : r.response.getType = .response := by
    rw [← htype, Message.getType, Message.getType, hcontent]
  have hmethod' : r.response.getMethod = lookup.kind.method := by
    rw [← hmethod, Message.getMethod, Message.getMethod, hcontent]
  simp [Responded.fits, hid, hid', htype', hmethod']

theorem honest_of_served {t : LookupTask} {e : LookupEvent} (hW : W.Sound t.toLookup)
    (h : Served W C R t e) :
    W.Honest t e := by
  cases e with
  | call key ce =>
    cases ce with
    | responded r => exact fun call hfind => (h call hfind).answers hW
    | _ => exact h
  | _ => exact h

end World

/-- A lookup of which every call that ends is answered by the request handlers of a node, where
every node of the world has a closer one in the bucket of the target, unless it is the closest
itself: it asks a node that is closest to the target. -/
theorem LookupTask.run_reaches_residents (C : Crypto) (R : RandomOrder) (W : World)
    (lookup : Lookup) (hW : W.Sound lookup) (events : List (UInt64 × LookupEvent))
    (hclock : ∀ e ∈ events, e.1 ≠ 0)
    (hserved : ∀ pre e post, events = pre ++ e :: post →
    World.Served W C R ((new lookup).run pre) e.2) :
    Found W ((new lookup).answerers events) ((new lookup).run events) :=
  found_of_honest W hW hclock fun pre e post heq =>
    World.honest_of_served (by rw [lookup_run]; exact hW) (hserved pre e post heq)

namespace World

/-- The DHT of the node `b`, for the example, with the nodes `bs` in its table. -/
def dhtAt (b : UInt8) (bs : List UInt8) : DHT :=
  bs.foldl (fun dht b => dht.put 1 (KClosestNodes.entryAt b))
    { addr := addressAt b
      routingTable := RoutingTable.init (nodeAt b).nodeId
      table_ok := RoutingTable.init_inv _ }

/-- The node itself. -/
def residentAt (b : UInt8) (bs : List UInt8) : Node :=
  { Node.inetNode with id := (nodeAt b).nodeId, dht4 := some (dhtAt b bs) }

/-- The request of a lookup for `0x80...`. -/
def requestAt : Message :=
  { txid := 1, content := .findNodeRequest ((lookupAt .node 0x80).request false) }

/-- The answer to it. -/
def responseAt (b : UInt8) (bs : List UInt8) : Responded where
  response :=
    { id := (nodeAt b).nodeId, origin := addressAt b, txid := 1,
      content := .findNodeResponse { nodes4 := bs.map nodeAt } }

/-- The nodes that it lists. -/
def listedAt (b : UInt8) (bs : List UInt8) : List NodeInfo :=
  (KClosestNodes.fill
    { target := (lookupAt .node 0x80).target, maxEntries := MAX_ENTRIES_PER_BUCKET }
    { type := .ipv4, routingTable := (dhtAt b bs).routingTable, bootstrapNodes := [],
      origin := (dhtAt b bs).addr }
    (residentAt b bs).now true).entries.map (·.toNodeInfo)

theorem serves_of_listed {b : UInt8} (bs : List UInt8) {listed : List UInt8}
    (hresident : twoNodes.Resident (lookupAt .node 0x80) (residentAt b bs) (dhtAt b bs))
    (hlisted : listedAt b bs = listed.map nodeAt) (C : Crypto) (R : RandomOrder) :
    Serves twoNodes (lookupAt .node 0x80) C R (nodeAt b).nodeId (responseAt b listed) := by
  refine ⟨residentAt b bs, (residentAt b bs).reply requestAt
    (.findNodeResponse { nodes4 := listed.map nodeAt }),
    dhtAt b bs, requestAt, _, hresident, rfl, ⟨false, rfl⟩, ?_, rfl, rfl, rfl, rfl⟩
  have hclosest : (residentAt b bs).closestNodes .ipv4 .ipv4 (lookupAt .node 0x80).target
      MAX_ENTRIES_PER_BUCKET = .ok (listed.map nodeAt) := congrArg Except.ok hlisted
  have hnone : ¬ Network.ipv4 = Network.ipv6 := by decide
  have hroom : 0 < MAX_ENTRIES_PER_BUCKET := by decide
  simp only [Node.onRequest, requestAt, Node.onFindNode, Node.populateWanted,
    Node.populateClosestNodes, Lookup.request,
    show (lookupAt .node 0x80).network = .ipv4 from rfl, decide_true, if_true, hroom, hclosest,
      hnone, decide_false]
  rfl

theorem serves_first (C : Crypto) (R : RandomOrder) :
    Serves twoNodes (lookupAt .node 0x80) C R (nodeAt 1).nodeId
    (responseAt 1 [0x80, 1]) := by
  refine serves_of_listed [0x80] ⟨.inl rfl, rfl, by decide +kernel, by decide +kernel, ?_,
    nofun, ?_⟩ ?_ C R
  · have hentries : (dhtAt 1 [0x80]).routingTable.allEntries.map (·.toNodeInfo) =
        [nodeAt 0x80] := by decide +kernel
    intro e he
    have hmem : e.toNodeInfo ∈ [nodeAt 0x80] := by
      rw [← hentries]
      exact List.mem_map_of_mem he
    rw [List.mem_singleton.mp hmem]
    exact .inr ⟨.inr rfl, by decide +kernel⟩
  · exact fun _ _ _ => by decide +kernel
  · decide +kernel

theorem serves_second (C : Crypto) (R : RandomOrder) :
    Serves twoNodes (lookupAt .node 0x80) C R (nodeAt 0x80).nodeId
    (responseAt 0x80 [0x80]) := by
  refine serves_of_listed [] ⟨.inr rfl, rfl, rfl, by decide +kernel, nofun, nofun, ?_⟩ ?_ C R
  · -- it is the target
    rintro c (rfl | rfl) hlt
    · exact absurd hlt (by decide +kernel)
    · exact absurd hlt (by decide +kernel)
  · decide +kernel

end World

namespace LookupTask

/-- A lookup for `0x80...` starts with `0x01...`, which has `0x80...` in its table; that one lists
itself. -/
def twoServed : List (UInt64 × LookupEvent) :=
  [(1, .start [.info (nodeAt 1)]), (2, .call 0 (.responded (World.responseAt 1 [0x80, 1]))),
    (3, .call 1 (.responded (World.responseAt 0x80 [0x80])))]

theorem run_reaches_residents_twoServed :
    ((new (lookupAt .node 0x80)).run twoServed).state = .finished ∧
    Found twoNodes ((new (lookupAt .node 0x80)).answerers twoServed)
      ((new (lookupAt .node 0x80)).run twoServed) := by
  refine ⟨by decide +kernel, run_reaches_residents
    ⟨fun _ => Id.zero, fun _ _ _ => false, fun s => s⟩
    ⟨fun rows => rows, fun _ => .rfl⟩ twoNodes (lookupAt .node 0x80) twoNodes_sound twoServed
      (by simp [twoServed]) ?_⟩
  rintro (_ | ⟨_, _ | ⟨_, _ | ⟨_, pre⟩⟩⟩) e post heq
  · obtain ⟨rfl, -⟩ := List.cons.inj heq
    exact fun r hr => .inr (by rw [List.mem_singleton.mp hr]; exact ⟨.inl rfl, by decide +kernel⟩)
  · obtain ⟨rfl, htail⟩ := List.cons.inj heq
    obtain ⟨rfl, -⟩ := List.cons.inj htail
    intro call hfind
    have hcall : some { key := 0, target := (nodeAt 1).nodeId } = some call :=
      (by decide +kernel : _ = _).trans hfind
    obtain rfl := Option.some.inj hcall
    rw [lookup_run]
    exact World.serves_first _ _
  · obtain ⟨rfl, htail⟩ := List.cons.inj heq
    obtain ⟨rfl, hlast⟩ := List.cons.inj htail
    obtain ⟨rfl, -⟩ := List.cons.inj hlast
    intro call hfind
    have hcall : some { key := 1, target := (nodeAt 0x80).nodeId } = some call :=
      (by decide +kernel : _ = _).trans hfind
    obtain rfl := Option.some.inj hcall
    rw [lookup_run]
    exact World.serves_second _ _
  · simp [twoServed] at heq

end LookupTask

end Boson
