import Boson.Message.Serialize

/-!
# What a message carries

`Message::parse` reads back what `Message::serialize` writes.

* `parse_serialize`: a message that was built by the constructors and setters is read as a message
  of the same kind, with the same transaction id, version and fields. What is not carried: the
  version, flow information and scope of a node, the private key of a peer, and a number that stands
  for an absent one, which is read as `-1`: a negative sequence number, and the expected sequence
  number where the value is immutable.
* `parse_storeValueRequest`: the sequence number of a `STORE_VALUE` is read as a `uint16_t`, so that
  only its lower 16 bits are.
-/

namespace Boson

open FoldM

/-! ## What is carried -/

/-- The IP and the port. -/
def SocketAddress.carried : SocketAddress → SocketAddress
  | inet6 ip port _ _ => inet6 ip port 0 0
  | addr => addr

/-- The id, the IP and the port. -/
def NodeInfo.carried (self : NodeInfo) : NodeInfo :=
  { nodeId := self.nodeId, sockaddr := self.sockaddr.carried }

/-- All but the private key. -/
def PeerInfo.carried (self : PeerInfo) : PeerInfo := { self with privateKey := none }

/-- A number that is not negative. -/
def carriedNumber (n : Int32) : Int32 := if n ≥ 0 then n else -1

/-- The nodes by id, IP and port. -/
def LookupResponse.carried (self : LookupResponse) : LookupResponse where
  nodes4 := self.nodes4.map (·.carried)
  nodes6 := self.nodes6.map (·.carried)
  token := self.token

/-- What is read of a content. Nothing is said of a sequence number that a `uint16_t` does not
hold. -/
def Content.Carried (self read : Content) : Prop :=
  match self with
  | findNodeResponse r => read = .findNodeResponse r.carried
  | findPeerResponse r peers => read = .findPeerResponse r.carried (peers.map (·.carried))
  | findValueRequest q seq => read = .findValueRequest q (carriedNumber seq)
  | findValueResponse r v => read = .findValueResponse r.carried v
  | storeValueRequest q => ∃ seq, (q.sequenceNumber.toInt < 2 ^ 16 → seq = q.sequenceNumber) ∧
      read = .storeValueRequest { q with
        sequenceNumber := seq
        expectedSequenceNumber :=
          if q.publicKey.isSome then carriedNumber q.expectedSequenceNumber else -1 }
  | c => read = c

/-- The peers of a response share an id, and their URLs are normalised. The constructor keeps no
empty URL. -/
structure PeersAgree (C : Crypto) (peers : List PeerInfo) : Prop where
  sameId : ∀ p ∈ peers, ∀ p' ∈ peers, p.publicKey = p'.publicKey
  normalised : ∀ p ∈ peers, ∀ url, p.alternativeURL = some url → url ≠ [] ∧ C.utf8NFC url = url

namespace Content

/-- The nodes of a message. -/
def nodes : Content → List NodeInfo
  | findNodeResponse r | findPeerResponse r _ | findValueResponse r _ => r.nodes4 ++ r.nodes6
  | _ => []

/-- The peers of a message. -/
def peers : Content → List PeerInfo
  | findPeerResponse _ peers => peers
  | _ => []

end Content

/-! ## Values of JSON -/

theorem getInt_int (n : Int32) : (Json.int n.toInt).getInt = .ok n := by
  simp [Json.getInt, Json.getNumber, Functor.map, Except.map]

theorem getId_toJson (id : Id) : id.toJson.getId = .ok id := by
  simp [Json.getId, Id.toJson, Json.getBinary, Bind.bind, Except.bind]

theorem getNonce_bin (B : Build) (nonce : Nonce) :
    (Json.bin nonce.data).getNonce B = .ok nonce := by
  simp [Json.getNonce, Json.getBinary, Bind.bind, Except.bind]

theorem uint16_ofInt_toNat (n : UInt16) : UInt16.ofInt n.toNat = n := by
  have hlt := n.toNat_lt
  have hmod : ((n.toNat : Int) % 2 ^ 16).toNat = n.toNat := by omega
  rw [UInt16.ofInt, hmod, UInt16.ofNat_toNat]

theorem getUInt16_int (n : UInt16) : (Json.int n.toNat).getUInt16 = .ok n := by
  simp [Json.getUInt16, Json.getNumber, Functor.map, Except.map, uint16_ofInt_toNat]

/-- Of a number the lower 16 bits are read. -/
theorem getSeq16_int (n : Int32) :
    ∃ seq, getSeq16 (.int n.toInt) = .ok seq ∧ seq.toInt = n.toInt % 2 ^ 16 := by
  refine ⟨Int32.ofNat (UInt16.ofInt n.toInt).toNat, rfl, ?_⟩
  have hmod : (n.toInt % 2 ^ 16).toNat % 2 ^ 16 = (n.toInt % 2 ^ 16).toNat := by omega
  rw [UInt16.ofInt, UInt16.toNat_ofNat', hmod, ← Int32.ofInt_eq_ofNat,
    Int32.toInt_ofInt_of_le (by omega) (by omega)]
  omega

theorem ofBlob?_inaddr {addr : SocketAddress} (h : addr.isValid = true) :
    SocketAddress.ofBlob? addr.inaddr addr.port = some addr.carried := by
  cases addr with
  | empty => cases h
  | inet ip port =>
    simp [SocketAddress.ofBlob?, SocketAddress.inaddr, SocketAddress.port, SocketAddress.carried]
  | inet6 ip port flowinfo scopeId =>
    have hne : Bytes.ofList? 4 ip.data = none := by
      rw [← Option.not_isSome_iff_eq_none, Bytes.ofList?_isSome, ip.size_eq]
      decide
    simp [SocketAddress.ofBlob?, SocketAddress.inaddr, SocketAddress.port,
      SocketAddress.carried, hne]

theorem getNodeInfo_toJson {n : NodeInfo} (h : n.sockaddr.isValid = true) :
    n.toJson.getNodeInfo = .ok n.carried := by
  have hlt := n.sockaddr.port.toNat_lt
  have hint : (Json.int n.sockaddr.port.toNat).getInt = .ok (Int32.ofInt n.sockaddr.port.toNat) :=
    rfl
  have hport : UInt16.ofInt (Int32.ofInt n.sockaddr.port.toNat).toInt = n.sockaddr.port := by
    rw [Int32.toInt_ofInt_of_le (by omega) (by omega), uint16_ofInt_toNat]
  simp only [NodeInfo.toJson, Json.getNodeInfo, Json.item, Json.getBinary, Id.toJson, Bind.bind,
    Except.bind,
    List.getElem?_cons_zero, List.getElem?_cons_succ, hint, hport, Id.ofBlob?_bytes,
      ofBlob?_inaddr h,
    NodeInfo.carried]

theorem parseNodes_toJson {nodes : List NodeInfo} (h : ∀ n ∈ nodes, n.sockaddr.isValid = true)
    (before : List NodeInfo) :
    parseNodes (.arr (nodes.map (·.toJson))) before = .ok (before ++ nodes.map (·.carried)) := by
  refine foldlM_collect id (fun n hn acc => ?_) before
  rw [getNodeInfo_toJson (h n hn)]
  rfl

/-- What the constructor makes of the public fields of a peer. -/
theorem of_carried {C : Crypto} {p : PeerInfo} {origin url : List UInt8}
    (horigin : (Id.ofBlob? origin).getD p.nodeId = p.origin)
    (hsize : origin = [] ∨ (Id.ofBlob? origin).isSome = true)
    (hurl : (if url = [] then none else some (C.utf8NFC url)) = p.alternativeURL) :
    PeerInfo.of C p.publicKey.bytes [] p.nodeId.bytes origin p.port url p.signature =
      .ok p.carried := by
  have hok : ¬ (origin ≠ [] ∧ (Id.ofBlob? origin).isNone = true) := by
    rintro ⟨hne, hnone⟩
    rw [Option.isNone_iff_eq_none.mp hnone] at hsize
    exact hsize.elim hne (by simp)
  simp only [PeerInfo.of, Id.ofBlob?_bytes, horigin, hurl, if_neg hok, p.port_ok, p.signature_ok]
  rfl

theorem getPeerInfo_row {C : Crypto} {p : PeerInfo}
    (hurl : ∀ url, p.alternativeURL = some url → url ≠ [] ∧ C.utf8NFC url = url) {items : List Json}
    (hitems : p.toRow = .arr items) : getPeerInfo C p.publicKey.bytes items = .ok p.carried := by
  have horigin : ∃ origin,
      orEmpty Json.getBinary (if p.isDelegated then p.origin.toJson else .null) = .ok origin ∧
      (Id.ofBlob? origin).getD p.nodeId = p.origin ∧
        (origin = [] ∨ (Id.ofBlob? origin).isSome = true) := by
    split_ifs with hdelegated
    · exact ⟨p.origin.bytes, rfl, by simp, .inr (by simp)⟩
    · have hsame : p.nodeId = p.origin := by simpa [PeerInfo.isDelegated] using hdelegated
      exact ⟨[], rfl, hsame, .inl rfl⟩
  have hurl' : ∃ url, orEmpty Json.getString ((p.alternativeURL.map .str).getD .null) = .ok url ∧
      (if url = [] then none else some (C.utf8NFC url)) = p.alternativeURL := by
    cases halt : p.alternativeURL with
    | none => exact ⟨[], rfl, rfl⟩
    | some url =>
      obtain ⟨hne, hnfc⟩ := hurl url halt
      exact ⟨url, rfl, by rw [if_neg hne, hnfc]⟩
  obtain ⟨origin, hread, hgetD, hsize⟩ := horigin
  obtain ⟨url, hreadUrl, hnfc⟩ := hurl'
  cases hitems
  simp only [getPeerInfo, Json.itemAt, List.getElem?_cons_zero, List.getElem?_cons_succ, Bind.bind,
    Except.bind, Id.toJson, Json.getBinary, getUInt16_int] at hread hreadUrl ⊢
  rw [hread]
  dsimp only
  rw [hreadUrl]
  dsimp only
  rw [of_carried hgetD hsize hnfc]
  rfl

theorem parsePeers_rows {C : Crypto} {peers : List PeerInfo} {id : Id}
    (hid : ∀ p ∈ peers, p.publicKey = id)
    (hurl : ∀ p ∈ peers, ∀ url, p.alternativeURL = some url → url ≠ [] ∧ C.utf8NFC url = url)
    (before : List PeerInfo) :
    (peers.map (·.toRow)).foldlM (parsePeer C) (id.bytes, before) =
      .ok (id.bytes, before ++ peers.map (·.carried)) := by
  refine foldlM_collect (fun peers => (id.bytes, peers)) (fun p hp acc => ?_) before
  have hpeer := getPeerInfo_row (hurl p hp) rfl
  rw [hid p hp] at hpeer
  unfold parsePeer PeerInfo.toRow
  dsimp only
  rw [hpeer]
  rfl

/-! ## Fields -/

/-- A field is read, if it was written. -/
def readField {β : Type} (f : β → Text × Json → Except Fault β) (b : β)
    (field : Text × Option Json) :
    Except Fault β :=
  match field.2 with
  | some value => f b (field.1, value)
  | none => .ok b

theorem foldlM_written {β : Type} (f : β → Text × Json → Except Fault β)
    (fields : List (Text × Option Json)) (b : β) :
    (fields.filterMap fun field => field.2.map (field.1, ·)).foldlM f b =
      fields.foldlM (readField f) b := by
  rw [List.foldlM_filterMap]
  congr
  funext b field
  obtain ⟨key, _ | value⟩ := field <;> rfl

/-- The part of a content that `parse` reads takes a field, if it was written. -/
def Takes {R : Type} (parse : R → Text → Json → Option (Except Fault R)) (r : R)
    (field : Text × Option Json) (r' : R) : Prop :=
  match field.2 with
  | some value => parse r field.1 value = some (.ok r')
  | none => r' = r

/-- The content `mk r` reads a field as the part `r` of it does. -/
def Embeds (C : Crypto) (B : Build) {R : Type} (parse : R → Text → Json → Option (Except Fault R))
    (mk : R → Content) : Prop :=
  ∀ r key value r', parse r key value = some (.ok r') →
    (mk r).parseField C B key value = .ok (mk r')

/-- A field of a content is read, if it was written. -/
def Content.readField (C : Crypto) (B : Build) : Content → Text × Option Json →
    Except Fault Content :=
  Boson.readField fun c f => c.parseField C B f.1 f.2

section Contents

variable {C : Crypto} {B : Build}

/-- The fields of a body are read in the order of their keys. -/
theorem parse_object {c : Content} {key : Text} {error : String}
    (hkey : c.bodyKey = some (key, error)) (fields : List (Text × Option Json)) :
    c.parse C B key (.object fields) =
      (fields.insertionSort fun a b => a.1 ≤ b.1).foldlM (Content.readField C B) c := by
  unfold Content.readField
  rw [← foldlM_written]
  simp [Content.parse, hkey, Json.object]

theorem Embeds.read {R : Type} {parse : R → Text → Json → Option (Except Fault R)}
    {mk : R → Content} (h : Embeds C B parse mk) {r r' : R} {field : Text × Option Json}
    (htake : Takes parse r field r') :
    (mk r).readField C B field = .ok (mk r') := by
  obtain ⟨key, _ | value⟩ := field
  · cases htake
    rfl
  · exact h r key value r' htake

namespace LookupRequest

theorem takes_target (q : LookupRequest) (target : Id) :
    Takes parseField q (KEY_REQ_TARGET, some target.toJson) { q with target := target } := by
  change some ((fun target => { q with target := target }) <$> target.toJson.getId) = _
  rw [getId_toJson]
  rfl

theorem takes_want (q q' : LookupRequest) :
    Takes parseField q' (KEY_REQ_WANT, some (.int q.getWant)) { q with target := q'.target } := by
  have hwant : q'.setWant (Int32.ofInt q.getWant) = { q with target := q'.target } := by
    unfold setWant getWant
    congr 1
    all_goals
      cases q.want4 <;> cases q.want6 <;> cases q.wantToken <;> decide
  rw [← hwant]
  exact rfl

end LookupRequest

/-- The three lookup requests. -/
theorem read_lookupRequest {mk : LookupRequest → Content}
    (h : Embeds C B LookupRequest.parseField mk) (q : LookupRequest)
    (fields : List (Text × Option Json)) :
    ((KEY_REQ_TARGET, some q.target.toJson) :: (KEY_REQ_WANT, some (.int q.getWant)) ::
      fields).foldlM
        (Content.readField C B) (mk {}) =
      fields.foldlM (Content.readField C B) (mk q) := by
  rw [foldlM_cons_ok (h.read (LookupRequest.takes_target {} q.target)),
    foldlM_cons_ok (h.read (LookupRequest.takes_want q _))]

namespace LookupResponse

variable {r : LookupResponse} {nodes : List NodeInfo}

theorem takes_nodes4 (h : r.nodes4 = []) (hnodes : ∀ n ∈ nodes, n.sockaddr.isValid = true) :
    Takes parseField r (KEY_RES_NODES4, serializeNodes nodes)
      { r with nodes4 := nodes.map (·.carried) } := by
  unfold serializeNodes
  split_ifs with hne
  · change some ((fun nodes => { r with nodes4 := nodes }) <$> parseNodes _ r.nodes4) = _
    rw [parseNodes_toJson hnodes, h]
    rfl
  · rw [not_not] at hne
    subst hne
    cases r
    cases h
    rfl

theorem takes_nodes6 (h : r.nodes6 = []) (hnodes : ∀ n ∈ nodes, n.sockaddr.isValid = true) :
    Takes parseField r (KEY_RES_NODES6, serializeNodes nodes)
      { r with nodes6 := nodes.map (·.carried) } := by
  unfold serializeNodes
  split_ifs with hne
  · change some ((fun nodes => { r with nodes6 := nodes }) <$> parseNodes _ r.nodes6) = _
    rw [parseNodes_toJson hnodes, h]
    rfl
  · rw [not_not] at hne
    subst hne
    cases r
    cases h
    rfl

theorem takes_token (h : r.token = 0) (token : Int32) :
    Takes parseField r (KEY_RES_TOKEN, if token ≠ 0 then some (.int token.toInt) else none)
      { r with token := token } := by
  split_ifs with hne
  · change some ((fun token => { r with token := token }) <$> (Json.int token.toInt).getInt) = _
    rw [getInt_int]
    rfl
  · rw [not_not] at hne
    subst hne
    cases r
    cases h
    rfl

end LookupResponse

namespace ValueFields

variable {seqOf : Json → Except Fault Int32} (v : ValueFields)

theorem takes_publicKey (id : Id) :
    Takes (parseField B seqOf) v (KEY_REQ_PUBLICKEY, some id.toJson)
      { v with publicKey := some id } := by
  change some ((fun id => { v with publicKey := some id }) <$> id.toJson.getId) = _
  rw [getId_toJson]
  rfl

theorem takes_recipient {v : ValueFields} (h : v.recipient = none) (recipient : Option Id) :
    Takes (parseField B seqOf) v (KEY_REQ_RECIPIENT, recipient.map (·.toJson))
      { v with recipient := recipient } := by
  cases recipient with
  | none =>
    cases v
    cases h
    exact rfl
  | some id =>
    change some ((fun id => { v with recipient := some id }) <$> id.toJson.getId) = _
    rw [getId_toJson]
    rfl

theorem takes_nonce (nonce : Nonce) :
    Takes (parseField B seqOf) v (KEY_REQ_NONCE, some (.bin nonce.data))
      { v with nonce := some nonce } := by
  change some ((fun nonce => { v with nonce := some nonce }) <$> (Json.bin nonce.data).getNonce B) =
    _
  rw [getNonce_bin]
  rfl

theorem takes_signature (signature : List UInt8) :
    Takes (parseField B seqOf) v (KEY_REQ_SIGNATURE, some (.bin signature))
      { v with signature := some signature } := rfl

theorem takes_seq {n seq : Int32} (hn : 0 ≤ n.toInt) (hseq : seqOf (.int n.toInt) = .ok seq) :
    Takes (parseField B seqOf) v (KEY_REQ_SEQ, seqField n) { v with sequenceNumber := seq } := by
  have hge : n ≥ 0 := Int32.le_iff_toInt_le.mpr hn
  rw [seqField, if_pos hge]
  change some ((fun seq => { v with sequenceNumber := seq }) <$> seqOf (.int n.toInt)) = _
  rw [hseq]
  rfl

theorem takes_value (value : List UInt8) :
    Takes (parseField B seqOf) v (KEY_RES_VALUE, some (.bin value)) { v with value := value } := rfl

theorem takes_optional {v : ValueFields} (h : v.value = []) (value : List UInt8) :
    Takes (parseField B seqOf) v (KEY_RES_VALUE, if value ≠ [] then some (.bin value) else none)
      { v with value := value } := by
  split_ifs with hne
  · exact rfl
  · cases v
    cases h
    rw [not_not.mp hne]
    exact rfl

/-- A key of a value is no key of a lookup response. -/
theorem parseField_lookup {v : ValueFields} {key : Text} {value : Json}
    {x : Except Fault ValueFields}
    (h : v.parseField B seqOf key value = some x) (r : LookupResponse) :
    r.parseField key value = none := by
  unfold parseField at h
  split_ifs at h with hk hk hk hk hk hk <;> rw [hk] <;> rfl

/-- The fields of an owner are there or not, together. -/
structure Complete (v : ValueFields) : Prop where
  owner : ∀ id, v.publicKey = some id →
    (∃ nonce, v.nonce = some nonce) ∧ (∃ sig, v.signature = some sig) ∧ 0 ≤ v.sequenceNumber.toInt
  nobody : v.publicKey = none → v = { value := v.value }

theorem Built.complete {v : ValueFields} (h : v.Built) : v.Complete := by
  induction h with
  | new => exact ⟨nofun, fun _ => rfl⟩
  | @setValue v _ value ih =>
    unfold ValueFields.setValue
    by_cases hm : value.isMutable = true
    · obtain ⟨hnonce, ⟨sig, hsig, -⟩, hseq⟩ := value.mutable_ok (Option.isSome_iff_ne_none.mp hm)
      rw [if_pos hm]
      refine ⟨fun id _ => ⟨Option.ne_none_iff_exists'.mp hnonce, ⟨sig, hsig⟩, hseq⟩,
        fun hnone => ?_⟩
      exact absurd hnone (Option.isSome_iff_ne_none.mp hm)
    · rw [if_neg hm]
      refine ⟨ih.owner, fun hnone => ?_⟩
      have hv := ih.nobody hnone
      rw [hv]

end ValueFields

namespace AnnouncePeerRequest

/-- The loop of an `AnnouncePeerRequest` knows all its keys. -/
def reader (q : AnnouncePeerRequest) (key : Text) (value : Json) :
    Option (Except Fault AnnouncePeerRequest) :=
  some (q.parseField key value)

variable (q : AnnouncePeerRequest)

theorem takes_url {q : AnnouncePeerRequest} (h : q.alternativeURL = []) (url : List UInt8) :
    Takes reader q (KEY_REQ_ALT, if url ≠ [] then some (.str url) else none)
      { q with alternativeURL := url } := by
  split_ifs with hne
  · exact rfl
  · cases q
    cases h
    rw [not_not.mp hne]
    exact rfl

theorem takes_port (port : UInt16) :
    Takes reader q (KEY_REQ_PORT, some (.int port.toNat)) { q with port := port } := by
  change some ((fun port => { q with port := port }) <$> (Json.int port.toNat).getUInt16) = _
  rw [getUInt16_int]
  rfl

theorem takes_signature (signature : List UInt8) :
    Takes reader q (KEY_REQ_SIGNATURE, some (.bin signature)) { q with signature := signature } :=
      rfl

theorem takes_target (id : Id) :
    Takes reader q (KEY_REQ_TARGET, some id.toJson) { q with peerId := id } := by
  change some ((fun id => { q with peerId := id }) <$> id.toJson.getId) = _
  rw [getId_toJson]
  rfl

theorem takes_token (token : Int32) :
    Takes reader q (KEY_REQ_TOKEN, some (.int token.toInt)) { q with token := token } := by
  change some ((fun token => { q with token := token }) <$> (Json.int token.toInt).getInt) = _
  rw [getInt_int]
  rfl

theorem takes_node {q : AnnouncePeerRequest} (h : q.nodeId = none) (nodeId : Option Id) :
    Takes reader q (KEY_REQ_PROXY_ID, nodeId.map (·.toJson)) { q with nodeId := nodeId } := by
  cases nodeId with
  | none =>
    cases q
    cases h
    exact rfl
  | some id =>
    change some ((fun id => { q with nodeId := some id }) <$> id.toJson.getId) = _
    rw [getId_toJson]
    rfl

end AnnouncePeerRequest

/-! ## The subclasses -/

/-- The content that `Message::parse` starts with. -/
def Content.fresh (stray : Stray) : Content → Content
  | errorMessage method _ _ => errorMessage method 0 []
  | findNodeRequest _ => findNodeRequest {}
  | findNodeResponse _ => findNodeResponse {}
  | announcePeerRequest _ => announcePeerRequest { token := stray.token, port := stray.port }
  | findPeerRequest _ => findPeerRequest {}
  | findPeerResponse .. => findPeerResponse {} []
  | storeValueRequest _ => storeValueRequest {}
  | findValueRequest .. => findValueRequest {} (-1)
  | findValueResponse .. => findValueResponse {} {}
  | c => c

theorem read_errorMessage (method : Method) (code : Int32) (message : List UInt8) :
    (Content.errorMessage method 0 []).parse C B KEY_ERROR
        (.object [(KEY_ERR_CODE, some (.int code.toInt)), (KEY_ERR_MESSAGE, some (.str message))]) =
      .ok (.errorMessage method code message) := by
  rw [parse_object rfl]
  change [(KEY_ERR_CODE, some (Json.int code.toInt)),
    (KEY_ERR_MESSAGE, some (.str message))].foldlM _ _ = _
  have hcode : (Content.errorMessage method 0 []).readField C B
      (KEY_ERR_CODE, some (.int code.toInt)) = .ok (.errorMessage method code []) := by
    change (Content.errorMessage method · []) <$> (Json.int code.toInt).getInt = _
    rw [getInt_int]
    rfl
  rw [foldlM_cons_ok hcode]
  rfl

theorem read_findNodeRequest (q : LookupRequest) :
    (Content.findNodeRequest {}).parse C B KEY_REQUEST (.object q.fields) =
      .ok (.findNodeRequest q) := by
  have hmk : Embeds C B LookupRequest.parseField Content.findNodeRequest := by
    intro q key value q' h
    simp only [Content.parseField, h]
    rfl
  rw [parse_object rfl]
  exact read_lookupRequest hmk q []

theorem read_findPeerRequest (q : LookupRequest) :
    (Content.findPeerRequest {}).parse C B KEY_REQUEST (.object q.fields) =
      .ok (.findPeerRequest q) := by
  have hmk : Embeds C B LookupRequest.parseField Content.findPeerRequest := by
    intro q key value q' h
    simp only [Content.parseField, h]
    rfl
  rw [parse_object rfl]
  exact read_lookupRequest hmk q []

theorem read_findValueRequest (q : LookupRequest) (seq : Int32) :
    (Content.findValueRequest {} (-1)).parse C B KEY_REQUEST
        (.object (q.fields ++ [(KEY_REQ_SEQ, seqField seq)])) =
      .ok (.findValueRequest q (carriedNumber seq)) := by
  have hmk :
      Embeds C B LookupRequest.parseField (Content.findValueRequest · (carriedNumber seq)) := by
    intro q key value q' h
    simp only [Content.parseField, h]
    rfl
  have hseq : (Content.findValueRequest {} (-1)).readField C B
      (KEY_REQ_SEQ, seqField seq) = .ok (.findValueRequest {} (carriedNumber seq)) := by
    unfold seqField carriedNumber
    split_ifs
    · change Content.findValueRequest {} <$> (Json.int seq.toInt).getInt = _
      rw [getInt_int]
      rfl
    · rfl
  rw [parse_object rfl]
  change ((KEY_REQ_SEQ, seqField seq) :: q.fields).foldlM _ _ = _
  rw [foldlM_cons_ok hseq]
  exact read_lookupRequest hmk q []

theorem read_announcePeerRequest (stray : Stray) (q : AnnouncePeerRequest) :
    (Content.announcePeerRequest { token := stray.token, port := stray.port }).parse C B KEY_REQUEST
        (.object q.fields) = .ok (.announcePeerRequest q) := by
  have hmk : Embeds C B AnnouncePeerRequest.reader Content.announcePeerRequest := by
    intro q key value q' h
    simp only [Content.parseField, Option.some.inj h]
    rfl
  rw [parse_object rfl]
  change [(KEY_REQ_ALT, if q.alternativeURL ≠ [] then some (Json.str q.alternativeURL) else none),
    (KEY_REQ_PORT, some (.int q.port.toNat)), (KEY_REQ_SIGNATURE, some (.bin q.signature)),
    (KEY_REQ_TARGET, some q.peerId.toJson), (KEY_REQ_TOKEN, some (.int q.token.toInt)),
    (KEY_REQ_PROXY_ID, q.nodeId.map (·.toJson))].foldlM _ _ = _
  rw [foldlM_cons_ok (hmk.read (AnnouncePeerRequest.takes_url rfl q.alternativeURL)),
    foldlM_cons_ok (hmk.read (AnnouncePeerRequest.takes_port _ q.port)),
    foldlM_cons_ok (hmk.read (AnnouncePeerRequest.takes_signature _ q.signature)),
    foldlM_cons_ok (hmk.read (AnnouncePeerRequest.takes_target _ q.peerId)),
    foldlM_cons_ok (hmk.read (AnnouncePeerRequest.takes_token _ q.token)),
    foldlM_cons_ok (hmk.read (AnnouncePeerRequest.takes_node rfl q.nodeId))]
  rfl

theorem read_findNodeResponse {r : LookupResponse}
    (hnodes : ∀ n ∈ r.nodes4 ++ r.nodes6, n.sockaddr.isValid = true) :
    (Content.findNodeResponse {}).parse C B KEY_RESPONSE (.object r.fields) =
      .ok (.findNodeResponse r.carried) := by
  have hmk : Embeds C B LookupResponse.parseField Content.findNodeResponse := by
    intro r key value r' h
    simp only [Content.parseField, h]
    rfl
  rw [List.forall_mem_append] at hnodes
  rw [parse_object rfl]
  change r.fields.foldlM _ _ = _
  unfold LookupResponse.fields
  rw [foldlM_cons_ok (hmk.read (LookupResponse.takes_nodes4 rfl hnodes.1)),
    foldlM_cons_ok (hmk.read (LookupResponse.takes_nodes6 rfl hnodes.2)),
    foldlM_cons_ok (hmk.read (LookupResponse.takes_token rfl r.token))]
  rfl

theorem read_findPeerResponse {r : LookupResponse}
    (hnodes : ∀ n ∈ r.nodes4 ++ r.nodes6, n.sockaddr.isValid = true) {peers : List PeerInfo}
    (hpeers : PeersAgree C peers) :
    (Content.findPeerResponse {} []).parse C B KEY_RESPONSE
        (.object (r.fields ++ [(KEY_RES_PEERS, serializePeers peers)])) =
      .ok (.findPeerResponse r.carried (peers.map (·.carried))) := by
  have hmk (peers : List PeerInfo) :
      Embeds C B LookupResponse.parseField (Content.findPeerResponse · peers) := by
    intro r key value r' h
    simp only [Content.parseField, h]
    rfl
  have hread (r : LookupResponse) : (Content.findPeerResponse r []).readField C B
      (KEY_RES_PEERS, serializePeers peers) =
        .ok (.findPeerResponse r (peers.map (·.carried))) := by
    cases peers with
    | nil => rfl
    | cons p peers =>
      change Content.findPeerResponse r <$> (Prod.snd <$>
        ((p :: peers).map (·.toRow)).foldlM (parsePeer C) (p.publicKey.bytes, [])) = _
      rw [parsePeers_rows (fun p' hp' => hpeers.sameId p' hp' p List.mem_cons_self)
        hpeers.normalised]
      rfl
  rw [List.forall_mem_append] at hnodes
  rw [parse_object rfl]
  change [(KEY_RES_NODES4, serializeNodes r.nodes4), (KEY_RES_NODES6, serializeNodes r.nodes6),
    (KEY_RES_PEERS, serializePeers peers),
    (KEY_RES_TOKEN, if r.token ≠ 0 then some (.int r.token.toInt) else none)].foldlM _ _ = _
  rw [foldlM_cons_ok ((hmk []).read (LookupResponse.takes_nodes4 rfl hnodes.1)),
    foldlM_cons_ok ((hmk []).read (LookupResponse.takes_nodes6 rfl hnodes.2)),
      foldlM_cons_ok (hread _),
    foldlM_cons_ok ((hmk _).read (LookupResponse.takes_token rfl r.token))]
  rfl

theorem read_findValueResponse {r : LookupResponse}
    (hnodes : ∀ n ∈ r.nodes4 ++ r.nodes6, n.sockaddr.isValid = true) {v : ValueFields}
    (hv : v.Complete) :
    ∃ fields, v.fields = .ok fields ∧
      (Content.findValueResponse {} {}).parse C B KEY_RESPONSE (.object (r.fields ++ fields)) =
        .ok (.findValueResponse r.carried v) := by
  have hlookup (v : ValueFields) :
      Embeds C B LookupResponse.parseField (Content.findValueResponse · v) := by
    intro r key value r' h
    simp only [Content.parseField, h]
    rfl
  have hvalue (r : LookupResponse) : Embeds C B (ValueFields.parseField B Json.getInt)
      (Content.findValueResponse r) := by
    intro v key value v' h
    have hnone := ValueFields.parseField_lookup h r
    simp only [Content.parseField, hnone, h]
    rfl
  rw [List.forall_mem_append] at hnodes
  cases hkey : v.publicKey with
  | none =>
    refine ⟨_, by rw [ValueFields.fields, hkey], ?_⟩
    rw [parse_object rfl]
    change [(KEY_RES_NODES4, serializeNodes r.nodes4), (KEY_RES_NODES6, serializeNodes r.nodes6),
      (KEY_RES_TOKEN, if r.token ≠ 0 then some (.int r.token.toInt) else none),
      (KEY_RES_VALUE, if v.value ≠ [] then some (.bin v.value) else none)].foldlM _ _ = _
    rw [foldlM_cons_ok ((hlookup {}).read (LookupResponse.takes_nodes4 rfl hnodes.1)),
      foldlM_cons_ok ((hlookup {}).read (LookupResponse.takes_nodes6 rfl hnodes.2)),
      foldlM_cons_ok ((hlookup {}).read (LookupResponse.takes_token rfl r.token)),
      foldlM_cons_ok ((hvalue _).read (ValueFields.takes_optional rfl v.value)),
      hv.nobody hkey]
    rfl
  | some id =>
    obtain ⟨⟨nonce, hnonce⟩, ⟨sig, hsig⟩, hseq⟩ := hv.owner id hkey
    refine ⟨_, by rw [ValueFields.fields, hkey, hnonce, hsig]; rfl, ?_⟩
    rw [parse_object rfl]
    change [(KEY_REQ_PUBLICKEY, some id.toJson), (KEY_REQ_NONCE, some (.bin nonce.data)),
      (KEY_RES_NODES4, serializeNodes r.nodes4), (KEY_RES_NODES6, serializeNodes r.nodes6),
      (KEY_REQ_RECIPIENT, v.recipient.map (·.toJson)), (KEY_REQ_SEQ, seqField v.sequenceNumber),
      (KEY_REQ_SIGNATURE, some (.bin sig)),
      (KEY_RES_TOKEN, if r.token ≠ 0 then some (.int r.token.toInt) else none),
      (KEY_RES_VALUE, if v.value ≠ [] then some (.bin v.value) else none)].foldlM _ _ = _
    rw [foldlM_cons_ok ((hvalue {}).read (ValueFields.takes_publicKey {} id)),
      foldlM_cons_ok ((hvalue {}).read (ValueFields.takes_nonce _ nonce)),
      foldlM_cons_ok ((hlookup _).read (LookupResponse.takes_nodes4 rfl hnodes.1)),
      foldlM_cons_ok ((hlookup _).read (LookupResponse.takes_nodes6 rfl hnodes.2)),
      foldlM_cons_ok ((hvalue _).read (ValueFields.takes_recipient rfl v.recipient)),
      foldlM_cons_ok ((hvalue _).read (ValueFields.takes_seq _ hseq (getInt_int _))),
      foldlM_cons_ok ((hvalue _).read (ValueFields.takes_signature _ sig)),
      foldlM_cons_ok ((hlookup _).read (LookupResponse.takes_token rfl r.token)),
      foldlM_cons_ok ((hvalue _).read (ValueFields.takes_optional rfl v.value))]
    rw [← hkey, ← hnonce, ← hsig]
    rfl

/-- Of the sequence number of a value with an owner the lower 16 bits come back. -/
theorem read_storeValueRequest {q : StoreValueRequest} (hv : q.toValueFields.Complete) :
    ∃ fields seq, q.fields = .ok fields ∧
      (if q.publicKey.isSome then seq.toInt = q.sequenceNumber.toInt % 2 ^ 16
        else seq = q.sequenceNumber) ∧
      (Content.storeValueRequest {}).parse C B KEY_REQUEST (.object fields) =
        .ok (.storeValueRequest { q with
          sequenceNumber := seq
          expectedSequenceNumber :=
            if q.publicKey.isSome then carriedNumber q.expectedSequenceNumber else -1 }) := by
  have hvalue (token cas : Int32) :
      Embeds C B (ValueFields.parseField B getSeq16) (fun v =>
        Content.storeValueRequest { v with token := token, expectedSequenceNumber := cas }) := by
    intro v key value v' h
    simp only [Content.parseField, StoreValueRequest.parseField, h]
    rfl
  have htoken (r : StoreValueRequest) :
      (Content.storeValueRequest r).readField C B (KEY_REQ_TOKEN, some (.int q.token.toInt)) =
        .ok (.storeValueRequest { r with token := q.token }) := by
    change Content.storeValueRequest <$> ((fun token => { r with token := token }) <$>
      (Json.int q.token.toInt).getInt) = _
    rw [getInt_int]
    rfl
  have hcas : (Content.storeValueRequest {}).readField C B
      (KEY_REQ_CAS, seqField q.expectedSequenceNumber) =
      .ok (.storeValueRequest
        { expectedSequenceNumber := carriedNumber q.expectedSequenceNumber }) := by
    unfold seqField carriedNumber
    split_ifs
    · change Content.storeValueRequest <$> ((fun seq => { expectedSequenceNumber := seq }) <$>
        (Json.int q.expectedSequenceNumber.toInt).getInt) = _
      rw [getInt_int]
      rfl
    · rfl
  cases hkey : q.publicKey with
  | none =>
    refine ⟨_, -1, by rw [StoreValueRequest.fields, hkey], ?_, ?_⟩
    · rw [Option.isSome_none, if_neg Bool.false_ne_true, hv.nobody hkey]
    rw [parse_object rfl]
    change [(KEY_REQ_TOKEN, some (Json.int q.token.toInt)),
      (KEY_RES_VALUE, some (.bin q.value))].foldlM _ _ = _
    rw [foldlM_cons_ok (htoken {}),
      foldlM_cons_ok ((hvalue q.token (-1)).read (ValueFields.takes_value {} q.value)),
      hv.nobody hkey]
    rfl
  | some id =>
    obtain ⟨⟨nonce, hnonce⟩, ⟨sig, hsig⟩, hseq⟩ := hv.owner id hkey
    obtain ⟨seq, hread, hsame⟩ := getSeq16_int q.sequenceNumber
    refine ⟨_, seq, by rw [StoreValueRequest.fields, hkey, hnonce, hsig]; rfl, hsame, ?_⟩
    rw [parse_object rfl]
    change [(KEY_REQ_CAS, seqField q.expectedSequenceNumber), (KEY_REQ_PUBLICKEY, some id.toJson),
      (KEY_REQ_NONCE, some (.bin nonce.data)), (KEY_REQ_RECIPIENT, q.recipient.map (·.toJson)),
      (KEY_REQ_SEQ, seqField q.sequenceNumber), (KEY_REQ_SIGNATURE, some (.bin sig)),
      (KEY_REQ_TOKEN, some (.int q.token.toInt)),
        (KEY_RES_VALUE, some (.bin q.value))].foldlM _ _ = _
    rw [foldlM_cons_ok hcas,
      foldlM_cons_ok ((hvalue 0 _).read (ValueFields.takes_publicKey {} id)),
      foldlM_cons_ok ((hvalue 0 _).read (ValueFields.takes_nonce _ nonce)),
      foldlM_cons_ok ((hvalue 0 _).read (ValueFields.takes_recipient rfl q.recipient)),
      foldlM_cons_ok ((hvalue 0 _).read (ValueFields.takes_seq _ hseq hread)),
      foldlM_cons_ok ((hvalue 0 _).read (ValueFields.takes_signature _ sig)),
      foldlM_cons_ok (htoken _),
      foldlM_cons_ok ((hvalue q.token _).read (ValueFields.takes_value _ q.value))]
    rw [← hkey, ← hnonce, ← hsig, if_pos (by rw [hkey]; rfl)]
    rfl

/-- A body is read, if it was written. -/
def Content.Reads (C : Crypto) (B : Build) (self : Content) (key : Text) (body : Option Json)
    (read : Content) : Prop :=
  match body with
  | some object => self.parse C B key object = .ok read
  | none => read = self

/-- The body of a message is read back. -/
theorem read_content (stray : Stray) {c : Content} (hbuilt : c.Built)
    (hpeers : PeersAgree C c.peers) (hnodes : ∀ n ∈ c.nodes, n.sockaddr.isValid = true) :
    ∃ body read, c.serialize = .ok body ∧ c.Carried read ∧
      (c.fresh stray).Reads C B ({ content := c } : Message).getType.keyString body read := by
  cases c with
  | pingRequest => exact ⟨none, _, rfl, rfl, rfl⟩
  | pingResponse => exact ⟨none, _, rfl, rfl, rfl⟩
  | announcePeerResponse => exact ⟨none, _, rfl, rfl, rfl⟩
  | storeValueResponse => exact ⟨none, _, rfl, rfl, rfl⟩
  | errorMessage method code message =>
    exact ⟨some _, _, rfl, rfl, read_errorMessage method code message⟩
  | findNodeRequest q => exact ⟨some _, _, rfl, rfl, read_findNodeRequest q⟩
  | findPeerRequest q => exact ⟨some _, _, rfl, rfl, read_findPeerRequest q⟩
  | findValueRequest q seq => exact ⟨some _, _, rfl, rfl, read_findValueRequest q seq⟩
  | announcePeerRequest q => exact ⟨some _, _, rfl, rfl, read_announcePeerRequest stray q⟩
  | findNodeResponse r => exact ⟨some _, _, rfl, rfl, read_findNodeResponse hnodes⟩
  | findPeerResponse r peers => exact ⟨some _, _, rfl, rfl, read_findPeerResponse hnodes hpeers⟩
  | findValueResponse r v =>
    obtain ⟨fields, hfields, hread⟩ :=
      read_findValueResponse (C := C) (B := B) hnodes hbuilt.complete
    exact ⟨some _, _, by rw [Content.serialize, hfields]; rfl, rfl, hread⟩
  | storeValueRequest q =>
    obtain ⟨fields, seq, hfields, hseq, hread⟩ :=
      read_storeValueRequest (C := C) (B := B) hbuilt.complete
    refine ⟨some _, _, by rw [Content.serialize, hfields]; rfl, ⟨seq, fun hlt => ?_, rfl⟩, hread⟩
    split_ifs at hseq with howner
    · obtain ⟨id, hkey⟩ := Option.isSome_iff_exists.mp howner
      have h0 := (hbuilt.complete.owner id hkey).2.2
      exact Int32.toInt_inj.mp (by omega)
    · exact hseq

/-! ## The message -/

theorem valueOf_type (type : MessageType) (method : Method) :
    MessageType.valueOf (type.value ||| method.value) = .ok type := by
  cases type <;> cases method <;> rfl

theorem valueOf_method (type : MessageType) (method : Method) :
    Method.valueOf (type.value ||| method.value) = .ok method := by
  cases type <;> cases method <;> rfl

theorem createMessage_fresh (stray : Stray) (m : Message) :
    Message.createMessage stray (m.getType.value ||| m.getMethod.value) =
      .ok (m.content.fresh stray) := by
  unfold Message.createMessage
  rw [valueOf_type, valueOf_method]
  obtain ⟨id, origin, txid, version, content⟩ := m
  cases content <;> rfl

theorem uint8_ofInt_toNat (n : UInt8) : UInt8.ofInt n.toNat = n := by
  have hlt := n.toNat_lt
  have hmod : ((n.toNat : Int) % 2 ^ 8).toNat = n.toNat := by omega
  rw [UInt8.ofInt, hmod, UInt8.ofNat_toNat]

/-- The fields of a message, in the order in which they are read. -/
theorem object_root (type : MessageType) (number : UInt8) (txid version : Int32)
    (body : Option Json) :
    Json.object [(KEY_TYPE, some (.int number.toNat)), (KEY_TXID, some (.int txid.toInt)),
        (KEY_VERSION, some (.int version.toInt)), (type.keyString, body)] =
      .obj ([(type.keyString, body), (KEY_TXID, some (.int txid.toInt)),
        (KEY_VERSION, some (.int version.toInt)),
        (KEY_TYPE, some (.int number.toNat))].filterMap fun f =>
          f.2.map (f.1, ·)) := by
  cases type <;> rfl

theorem create_root (stray : Stray) (type : MessageType) (number : UInt8) (txid version : Json)
    (body : Option Json) :
    Message.create stray ([(type.keyString, body), (KEY_TXID, some txid),
      (KEY_VERSION, some version),
        (KEY_TYPE, some (.int number.toNat))].filterMap fun f => f.2.map (f.1, ·)) =
      (fun c => { content := c }) <$> Message.createMessage stray number := by
  nth_rewrite 2 [← uint8_ofInt_toNat number]
  cases body <;> cases type <;> rfl

theorem readField_body {m : Message} {type : MessageType} {body : Option Json} {read : Content}
    (h : m.content.Reads C B type.keyString body read) :
    readField (Message.parseField C B) m (type.keyString, body) =
      .ok { m with content := read } := by
  cases body with
  | none =>
    cases h
    rfl
  | some object =>
    have hfield : Message.parseField C B m (type.keyString, object) =
        (fun c => { m with content := c }) <$> m.content.parse C B type.keyString object := by
      cases type <;> rfl
    have hparse : m.content.parse C B type.keyString object = .ok read := h
    rw [hparse] at hfield
    exact hfield

theorem readField_number (m : Message) (n : Int32) :
    readField (Message.parseField C B) m (KEY_TXID, some (.int n.toInt)) =
      .ok { m with txid := n } ∧
      readField (Message.parseField C B) m (KEY_VERSION, some (.int n.toInt)) =
        .ok { m with version := n } := by
  constructor
  · change (fun txid => { m with txid := txid }) <$> (Json.int n.toInt).getInt = _
    rw [getInt_int]
    rfl
  · change (fun version => { m with version := version }) <$> (Json.int n.toInt).getInt = _
    rw [getInt_int]
    rfl

/-- What is read of a message that was written. -/
theorem parse_root (stray : Stray) {m : Message} {body : Option Json} {read : Content}
    (hbody : m.content.serialize = .ok body)
    (hread : (m.content.fresh stray).Reads C B m.getType.keyString body read) :
    (m.serialize >>= Message.parse C B stray) =
      .ok { txid := m.txid, version := m.version, content := read } := by
  unfold Message.serialize
  rw [hbody]
  change Message.parse C B stray (Json.object _) = _
  rw [object_root]
  change Message.create stray _ >>= _ = _
  rw [create_root, createMessage_fresh]
  change List.foldlM (Message.parseField C B) { content := m.content.fresh stray } _ = _
  rw [foldlM_written, foldlM_cons_ok (readField_body hread),
    foldlM_cons_ok (readField_number _ m.txid).1, foldlM_cons_ok (readField_number _ m.version).2]
  rfl

end Contents

/-- The request gives back the peer that it was made of, if it comes from the origin of the peer. -/
theorem getPeer_ofPeer {C : Crypto} (stray : Stray) {p : PeerInfo} (token : Int32)
    (hurl : ∀ url, p.alternativeURL = some url → url ≠ [] ∧ C.utf8NFC url = url) :
    (AnnouncePeerRequest.ofPeer stray p token).getPeer C p.origin = .ok p.carried := by
  have hnode : ((if p.isDelegated then some p.nodeId else none).getD p.origin).bytes =
      p.nodeId.bytes := by
    split_ifs with hdelegated
    · rfl
    · have hsame : p.nodeId = p.origin := by simpa [PeerInfo.isDelegated] using hdelegated
      rw [hsame]
      rfl
  have hnfc :
      (if p.alternativeURL.getD [] = [] then none else some
      (C.utf8NFC (p.alternativeURL.getD []))) =
      p.alternativeURL := by
    cases halt : p.alternativeURL with
    | none => rfl
    | some url =>
      obtain ⟨hne, hnfc⟩ := hurl url halt
      rw [Option.getD_some, if_neg hne, hnfc]
  unfold AnnouncePeerRequest.getPeer AnnouncePeerRequest.ofPeer AnnouncePeerRequest.setPeer
  dsimp only
  rw [hnode]
  exact of_carried (by simp) (.inr (by simp)) hnfc

/-- A message that was built by the constructors and setters is read back as far as it is carried;
an announced peer comes back whole, without its private key, if the request comes from its
origin. -/
theorem parse_serialize (C : Crypto) (B : Build) (stray : Stray) (m : Message)
    (hbuilt : m.content.Built) (hpeers : PeersAgree C m.content.peers)
    (hnodes : ∀ n ∈ m.content.nodes, n.sockaddr.isValid = true) :
    ∃ read, (m.serialize >>= Message.parse C B stray) =
        .ok { txid := m.txid, version := m.version, content := read } ∧ m.content.Carried read ∧
      ∀ stray' peer token, m.content = .announcePeerRequest (.ofPeer stray' peer token) →
        PeersAgree C [peer] →
        ∃ q, read = .announcePeerRequest q ∧ q.getPeer C peer.origin = .ok peer.carried := by
  obtain ⟨body, read, hbody, hcarried, hread⟩ :=
    read_content (C := C) (B := B) stray hbuilt hpeers hnodes
  refine ⟨read, parse_root stray hbody hread, hcarried, fun stray' peer token hcontent hpeer => ?_⟩
  rw [hcontent] at hcarried
  exact ⟨_, hcarried, getPeer_ofPeer stray' token (hpeer.normalised peer List.mem_cons_self)⟩

/-- A response with a node and a peer, whose URL is in ASCII. -/
def peerResponse : Message where
  txid := 7
  version := 3
  content := .findPeerResponse
    { nodes4 :=
        [{ nodeId := Id.zero, sockaddr := .inet ⟨[20, 51, 100, 7], rfl⟩ 39001, version := 3 }]
      token := -5 }
    [{ publicKey := ⟨List.replicate 32 5, rfl⟩
       privateKey := some ⟨List.replicate 64 1, rfl⟩
       nodeId := Id.zero
       origin := ⟨List.replicate 32 6, rfl⟩
       port := 443
       alternativeURL := some (lit "http://abc.pc2.net")
       signature := List.replicate 64 9
       port_ok := by decide
       signature_ok := rfl }]

theorem parse_serialize_peers :
    (peerResponse.serialize >>= Message.parse ⟨fun _ => Id.zero, fun _ _ _ => false, fun s => s⟩
      ⟨true⟩ ⟨0, 0⟩) =
      .ok { peerResponse with
        content := .findPeerResponse
          { nodes4 := [{ nodeId := Id.zero, sockaddr := .inet ⟨[20, 51, 100, 7], rfl⟩ 39001 }],
            token := -5 }
          (peerResponse.content.peers.map (·.carried)) } := by
  have hpeers : PeersAgree ⟨fun _ => Id.zero, fun _ _ _ => false, fun s => s⟩
      peerResponse.content.peers := by
    refine ⟨fun p hp p' hp' => ?_, fun p hp url hurl => ?_⟩
    · rw [List.mem_singleton.mp hp, List.mem_singleton.mp hp']
    · rw [List.mem_singleton.mp hp] at hurl
      cases hurl
      exact ⟨by decide, rfl⟩
  obtain ⟨read, hread, hcarried, -⟩ :=
    parse_serialize _ ⟨true⟩ ⟨0, 0⟩ peerResponse trivial hpeers (by decide)
  cases hcarried
  exact hread

/-- The same transaction id, version and content are read. -/
def Message.RoundTrips (C : Crypto) (B : Build) (stray : Stray) (self : Message) : Prop :=
  ∃ read, (self.serialize >>= Message.parse C B stray) = .ok read ∧ read.txid = self.txid ∧
    read.version = self.version ∧ read.content = self.content

theorem not_roundTrips_of_ok {C : Crypto} {B : Build} {stray : Stray} {m : Message} (read : Message)
    (h : (m.serialize >>= Message.parse C B stray) = .ok read) (hne : read.content ≠ m.content) :
    ¬ m.RoundTrips C B stray := by
  rintro ⟨read', hread, -, -, hcontent⟩
  rw [h] at hread
  cases hread
  exact hne hcontent

theorem not_roundTrips_of_error {C : Crypto} {B : Build} {stray : Stray} {m : Message}
    (fault : Fault)
    (h : (m.serialize >>= Message.parse C B stray) = .error fault) : ¬ m.RoundTrips C B stray := by
  rintro ⟨read, hread, -⟩
  rw [h] at hread
  cases hread

/-- A response with a node. -/
def nodeResponse (addr : SocketAddress) : Message where
  content := .findNodeResponse { nodes6 := [{ nodeId := Id.zero, sockaddr := addr }] }

/-- What is not carried: a negative sequence number, the expected sequence number of an immutable
value, a node without an address, and the scope of an address. -/
theorem not_roundTrips_absent :
    ¬ ({ content := .findValueRequest {} (-2) } : Message).RoundTrips
        ⟨fun _ => Id.zero, fun _ _ _ => false, fun s => s⟩ ⟨true⟩ ⟨0, 0⟩ ∧
      ¬ ({ content := .storeValueRequest { value := [1], expectedSequenceNumber := 5 } } :
        Message).RoundTrips
        ⟨fun _ => Id.zero, fun _ _ _ => false, fun s => s⟩ ⟨true⟩ ⟨0, 0⟩ ∧
      ¬ (nodeResponse .empty).RoundTrips ⟨fun _ => Id.zero, fun _ _ _ => false, fun s => s⟩
        ⟨true⟩ ⟨0, 0⟩ ∧
      ¬ (nodeResponse (.inet6 ⟨List.replicate 16 1, rfl⟩ 39001 0 2)).RoundTrips
        ⟨fun _ => Id.zero, fun _ _ _ => false, fun s => s⟩ ⟨true⟩ ⟨0, 0⟩ := by
  refine ⟨?_, ?_, ?_, ?_⟩
  · exact not_roundTrips_of_ok { content := .findValueRequest {} (-1) } rfl (by decide)
  · exact not_roundTrips_of_ok { content := .storeValueRequest { value := [1] } } rfl (by decide)
  · exact not_roundTrips_of_error (.exception "invalid ip lenght") rfl
  · exact not_roundTrips_of_ok (nodeResponse (.inet6 ⟨List.replicate 16 1, rfl⟩ 39001 0 0))
      rfl (by decide)

/-- A `STORE_VALUE` request for a mutable value is read with the lower 16 bits of the sequence
number: it is the same exactly if a `uint16_t` holds it. -/
theorem parse_storeValueRequest (C : Crypto) (B : Build) (stray : Stray) {m : Message}
    {q : StoreValueRequest} (hcontent : m.content = .storeValueRequest q) (hbuilt : m.content.Built)
    (howner : q.publicKey.isSome) :
    ∃ read, (m.serialize >>= Message.parse C B stray) =
        .ok { txid := m.txid, version := m.version, content := .storeValueRequest read } ∧
      read.sequenceNumber.toInt = q.sequenceNumber.toInt % 2 ^ 16 ∧
      (read.sequenceNumber = q.sequenceNumber ↔ q.sequenceNumber.toInt < 2 ^ 16) := by
  obtain ⟨id, origin, txid, version, content⟩ := m
  cases hcontent
  obtain ⟨fields, seq, hfields, hseq, hread⟩ :=
    read_storeValueRequest (C := C) (B := B) hbuilt.complete
  rw [if_pos howner] at hseq
  obtain ⟨owner, hkey⟩ := Option.isSome_iff_exists.mp howner
  have h0 := (hbuilt.complete.owner owner hkey).2.2
  have hbody : (Content.storeValueRequest q).serialize = .ok (some (.object fields)) := by
    rw [Content.serialize, hfields]
    rfl
  refine ⟨_, parse_root stray hbody hread, hseq, fun hsame => ?_, fun hlt => ?_⟩
  · rw [← hsame, hseq]
    omega
  · exact Int32.toInt_inj.mp (by rw [hseq]; omega)

end Boson
