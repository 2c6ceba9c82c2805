import Boson.Message.Cbor
import Mathlib.Data.List.TakeWhile

/-!
# The size of a message (`Message::estimateSize`)

`estimateSize` adds up constants for the fields that a kind of message has. It is an upper bound for
the size of the encoding (`Message.size_le_estimateSize`) for every message with signatures of at
most `Signature::BYTES` bytes and with IPv4 addresses in the list of IPv4 nodes, but not for every
message that can be parsed (`estimate_exceeded`).
-/

namespace Boson

open Cbor FoldM Json

/-! ## The estimates -/

/-- `Message::BASE_SIZE`. -/
def Message.BASE_SIZE : Nat := 56

/-- `LookupRequest::estimateSize`. -/
def LookupRequest.ESTIMATE : Nat := Message.BASE_SIZE + 43

/-- `LookupResponse::estimateSize`. -/
def LookupResponse.estimateSize (self : LookupResponse) : Nat :=
  Message.BASE_SIZE + 4 + (if self.nodes4 ≠ [] then 5 + 44 * self.nodes4.length else 0) +
    (if self.nodes6 ≠ [] then 5 + 56 * self.nodes6.length else 0) + if self.token = 0 then 0 else 9

/-- What `FindPeerResponse::estimateSize` adds for a peer. -/
def PeerInfo.estimateSize (self : PeerInfo) : Nat :=
  (2 + 2 + Id.BYTES + 1 + 2 + 2 + SIGNATURE_BYTES) +
    (if self.isDelegated then 2 + Id.BYTES else 1) +
    match self.alternativeURL with
    | some url => 2 + (cStr url).length
    | none => 1

/-- `FindPeerResponse::estimateSize`. -/
def estimatePeersSize (r : LookupResponse) (peers : List PeerInfo) : Nat :=
  if peers = [] then r.estimateSize
  else r.estimateSize + (2 + 2 + 2 + Id.BYTES) + (peers.map PeerInfo.estimateSize).sum

/-- `AnnouncePeerRequest::estimateSize`. -/
def AnnouncePeerRequest.estimateSize (self : AnnouncePeerRequest) : Nat :=
  Message.BASE_SIZE + (4 + 9 + 36 + 5 + 6 + SIGNATURE_BYTES) +
    (if self.nodeId.isSome then 0 else 4 + Id.BYTES) +
    if self.alternativeURL = [] then 0 else 6 + (cStr self.alternativeURL).length

/-- `estimateSize` of the subclasses. -/
def Message.estimateSize (self : Message) : Nat :=
  match self.content with
  | .errorMessage _ _ message => BASE_SIZE + 16 + message.length
  | .pingRequest | .pingResponse | .announcePeerResponse | .storeValueResponse => BASE_SIZE
  | .findNodeRequest _ | .findPeerRequest _ => LookupRequest.ESTIMATE
  | .findValueRequest .. => LookupRequest.ESTIMATE + 9
  | .announcePeerRequest q => q.estimateSize
  | .storeValueRequest q => BASE_SIZE + 208 + q.value.length
  | .findNodeResponse r => r.estimateSize
  | .findPeerResponse r peers => estimatePeersSize r peers
  | .findValueResponse r v => r.estimateSize + 195 + v.value.length

/-! ## The messages -/

/-- The nodes of a response: at most eight of each family. -/
def LookupResponse.Bounded (self : LookupResponse) : Prop :=
  self.nodes4.length ≤ 8 ∧ self.nodes6.length ≤ 8

/-- The byte strings of a value. -/
def ValueFields.Bounded (self : ValueFields) : Prop :=
  self.value.length < 65536 ∧ ∀ sig, self.signature = some sig → sig.length < 65536

/-- A URL, which has no NUL. -/
def BoundedURL (url : Text) : Prop := url.length < 65536 ∧ 0 ∉ url

/-- The strings and byte strings of a message are shorter than 65536 bytes, and its lists have at
most eight elements. -/
def Content.Bounded : Content → Prop
  | errorMessage _ _ message => message.length < 65536
  | announcePeerRequest q => BoundedURL q.alternativeURL ∧ q.signature.length < 65536
  | storeValueRequest q => q.toValueFields.Bounded
  | findNodeResponse r => r.Bounded
  | findPeerResponse r peers => r.Bounded ∧ peers.length ≤ 8 ∧
      ∀ peer ∈ peers, ∀ url, peer.alternativeURL = some url → BoundedURL url
  | findValueResponse r v => r.Bounded ∧ v.Bounded
  | _ => True

/-- The list of IPv4 nodes has no IPv6 address. -/
def LookupResponse.Regular (self : LookupResponse) : Prop :=
  ∀ x ∈ self.nodes4, x.sockaddr.family ≠ .inet6

/-- The signature of a value has at most `Signature::BYTES` bytes. -/
def ValueFields.Regular (self : ValueFields) : Prop :=
  ∀ sig, self.signature = some sig → sig.length ≤ SIGNATURE_BYTES

/-- What the estimates take for granted. -/
def Content.Regular : Content → Prop
  | announcePeerRequest q => q.signature.length ≤ SIGNATURE_BYTES
  | storeValueRequest q => q.toValueFields.Regular
  | findNodeResponse r | findPeerResponse r _ => r.Regular
  | findValueResponse r v => r.Regular ∧ v.Regular
  | _ => True

theorem inaddr_length_le {a : SocketAddress} (h : a.family ≠ .inet6) : a.inaddr.length ≤ 4 := by
  cases a with
  | empty => exact Nat.zero_le _
  | inet ip port => exact ip.size_eq.le
  | inet6 => exact absurd rfl h

theorem cStr_eq {url : Text} (h : BoundedURL url) : cStr url = url :=
  List.takeWhile_eq_self_iff.mpr fun _ hc => decide_eq_true fun h0 => h.2 (h0 ▸ hc)

theorem LookupRequest.size_fields (q : LookupRequest) : (q.fields.map fieldSize).sum ≤ 39 := by
  have hle : q.getWant ≤ 7 := by
    unfold getWant
    split_ifs <;> omega
  have hsize : (Json.int q.getWant).size = 1 := by
    rw [size, if_pos (Int.natCast_nonneg _), Int.toNat_natCast, headSize_eq_one (by omega)]
  have htarget : fieldSize (KEY_REQ_TARGET, some q.target.toJson) ≤ 1 + 1 + 34 :=
    fieldSize_some_le _ rfl (by decide) (size_id q.target).le
  have hwant : fieldSize (KEY_REQ_WANT, some (.int q.getWant)) ≤ 1 + 1 + 1 :=
    fieldSize_some_le _ rfl (by decide) hsize.le
  simp only [fields, List.map_cons, List.map_nil, List.sum_cons, List.sum_nil]
  omega

theorem LookupResponse.size_fields {r : LookupResponse} (hb : r.Bounded) (hr : r.Regular) :
    Message.BASE_SIZE + 4 + (r.fields.map fieldSize).sum ≤ r.estimateSize := by
  have hn4 : fieldSize (KEY_RES_NODES4, serializeNodes r.nodes4) ≤
      if r.nodes4 ≠ [] then 5 + 44 * r.nodes4.length else 0 := by
    split_ifs with hne
    · have := fieldSize_le KEY_RES_NODES4 (k := 2) rfl (by decide) fun j hj =>
        size_nodes hb.1 (fun x hx => inaddr_length_le (hr x hx)) hj
      omega
    · rw [serializeNodes, if_neg hne, fieldSize_none]
  have hn6 : fieldSize (KEY_RES_NODES6, serializeNodes r.nodes6) ≤
      if r.nodes6 ≠ [] then 5 + 56 * r.nodes6.length else 0 := by
    split_ifs with hne
    · have := fieldSize_le KEY_RES_NODES6 (k := 2) rfl (by decide) fun j hj =>
        size_nodes hb.2 (fun x _ => inaddr_length_le_sixteen x.sockaddr) hj
      omega
    · rw [serializeNodes, if_neg hne, fieldSize_none]
  have htoken : fieldSize (KEY_RES_TOKEN, if r.token ≠ 0 then some (.int r.token.toInt) else none) ≤
      if r.token = 0 then 0 else 9 := by
    by_cases h0 : r.token = 0
    · rw [if_neg (not_not.mpr h0), if_pos h0, fieldSize_none]
    · rw [if_pos h0, if_neg h0]
      exact fieldSize_some_le _ (k := 3) (n := 5) rfl (by decide) (size_int32 r.token)
  simp only [fields, estimateSize, List.map_cons, List.map_nil, List.sum_cons, List.sum_nil]
  omega

theorem PeerInfo.size_row (peer : PeerInfo)
    (hurl : ∀ url, peer.alternativeURL = some url → BoundedURL url) :
    peer.toRow.size ≤ peer.estimateSize := by
  have hport := size_port peer.port
  have hsig := size_signature peer.signature_ok.le
  have horigin : (if peer.isDelegated then peer.origin.toJson else Json.null).size =
      if peer.isDelegated then 2 + Id.BYTES else 1 := by
    split_ifs
    · exact size_id peer.origin
    · rfl
  -- a URL of 256 bytes or more has a head of three bytes, and the estimate of the row has one to
  -- spare
  have halt : ((peer.alternativeURL.map Json.str).getD Json.null).size ≤
      1 + match peer.alternativeURL with
        | some url => 2 + (cStr url).length
        | none => 1 := by
    cases hp : peer.alternativeURL with
    | none => decide
    | some url =>
      have hb := hurl url hp
      have := size_str hb.1
      show (Json.str url).size ≤ 1 + (2 + (cStr url).length)
      rw [cStr_eq hb]
      omega
  rw [toRow, size, itemsSize_eq, estimateSize]
  simp only [List.map_cons, List.map_nil, List.sum_cons, List.sum_nil, List.length_cons,
    List.length_nil, size_id, horigin]
  have : headSize (0 + 1 + 1 + 1 + 1 + 1) = 1 := rfl
  simp only [SIGNATURE_BYTES, Id.BYTES] at *
  omega

theorem size_peers {r : LookupResponse} {peers : List PeerInfo} (hlen : peers.length ≤ 8)
    (hurl : ∀ peer ∈ peers, ∀ url, peer.alternativeURL = some url → BoundedURL url) :
    r.estimateSize + fieldSize (KEY_RES_PEERS, serializePeers peers) ≤
      estimatePeersSize r peers := by
  unfold estimatePeersSize
  cases peers with
  | nil => exact le_rfl
  | cons peer peers =>
    have hrows : ((peer :: peers).map fun p => p.toRow.size).sum ≤
        ((peer :: peers).map PeerInfo.estimateSize).sum :=
      List.sum_le_sum fun p hp => p.size_row (hurl p hp)
    have hfield : fieldSize (KEY_RES_PEERS, serializePeers (peer :: peers)) ≤
        1 + 1 + (1 + (34 + ((peer :: peers).map fun p => p.toRow.size).sum)) := by
      refine fieldSize_le _ rfl (by decide) fun j hj => ?_
      cases hj
      have hcount : (peer.publicKey.toJson :: (peer :: peers).map (·.toRow)).length < 24 := by
        simp only [List.length_cons, List.length_map] at hlen ⊢
        omega
      rw [size, itemsSize_eq, headSize_eq_one hcount]
      simp only [List.map_cons, List.sum_cons, List.map_map, size_id]
      exact le_rfl
    rw [if_neg (List.cons_ne_nil _ _)]
    simp only [Id.BYTES]
    omega

/-- The fields that an owner adds to a value. -/
theorem size_owner (publicKey : Id) (recipient : Option Id) (nonce : Nonce) (sequenceNumber : Int32)
    {signature : List UInt8} (hsig : signature.length ≤ SIGNATURE_BYTES) :
    fieldSize (KEY_REQ_PUBLICKEY, some publicKey.toJson) +
      (fieldSize (KEY_REQ_RECIPIENT, recipient.map (·.toJson)) +
      (fieldSize (KEY_REQ_NONCE, some (.bin nonce.data)) +
      (fieldSize (KEY_REQ_SEQ, seqField sequenceNumber) +
      fieldSize (KEY_REQ_SIGNATURE, some (.bin signature))))) ≤ 181 := by
  have hnonce : (Json.bin nonce.data).size = 26 := by
    rw [size, nonce.size_eq]
    rfl
  have h1 := fieldSize_some_le KEY_REQ_PUBLICKEY (k := 1) rfl (by decide) (size_id publicKey).le
  have h2 := fieldSize_id KEY_REQ_RECIPIENT (k := 3) rfl (by decide) recipient
  have h3 := fieldSize_some_le KEY_REQ_NONCE (k := 1) rfl (by decide) hnonce.le
  have h4 := fieldSize_seq KEY_REQ_SEQ (k := 3) rfl (by decide) sequenceNumber
  have h5 := fieldSize_some_le KEY_REQ_SIGNATURE (k := 3) rfl (by decide) (size_signature hsig)
  simp only [SIGNATURE_BYTES] at h5
  omega

theorem size_value {value : List UInt8} (h : value.length < 65536) :
    fieldSize (KEY_RES_VALUE, some (.bin value)) ≤ 5 + value.length := by
  have := fieldSize_some_le KEY_RES_VALUE (k := 1) rfl (by decide) (size_bin h)
  omega

theorem valueOr_eq_ok {α : Type} {o : Option α} {a : α} (h : valueOr o = .ok a) : o = some a := by
  cases o with
  | none => cases h
  | some b => rw [Except.ok.inj h]

/-- The fields of a value that is found. -/
theorem ValueFields.size_fields {v : ValueFields} (hb : v.Bounded) (hr : v.Regular)
    {fields : List (Text × Option Json)} (h : v.fields = .ok fields) :
    fields.length ≤ 6 ∧ (fields.map fieldSize).sum ≤ 186 + v.value.length := by
  have hvalue : fieldSize (KEY_RES_VALUE, if v.value ≠ [] then some (.bin v.value) else none) ≤
      5 + v.value.length := by
    split_ifs
    · exact size_value hb.1
    · exact Nat.zero_le _
  unfold ValueFields.fields at h
  cases hk : v.publicKey with
  | none =>
    rw [hk] at h
    cases h
    simp only [List.length_singleton, List.map_cons, List.map_nil, List.sum_singleton]
    omega
  | some publicKey =>
    rw [hk] at h
    obtain ⟨nonce, -, h⟩ := bind_eq_ok_iff.mp h
    obtain ⟨signature, hsig, h⟩ := bind_eq_ok_iff.mp h
    cases h
    have howner :=
      size_owner publicKey v.recipient nonce v.sequenceNumber (hr _ (valueOr_eq_ok hsig))
    refine ⟨le_rfl, ?_⟩
    simp only [List.map_cons, List.map_nil, List.sum_cons, List.sum_nil]
    omega

/-- The fields of a value to be stored. -/
theorem StoreValueRequest.size_fields {q : StoreValueRequest} (hb : q.toValueFields.Bounded)
    (hr : q.toValueFields.Regular) {fields : List (Text × Option Json)}
    (h : q.fields = .ok fields) :
    fields.length ≤ 8 ∧ (fields.map fieldSize).sum ≤ 204 + q.value.length := by
  have hvalue := size_value hb.1
  have htoken := fieldSize_some_le KEY_REQ_TOKEN (k := 3) rfl (by decide) (size_int32 q.token)
  have hcas := fieldSize_seq KEY_REQ_CAS (k := 3) rfl (by decide) q.expectedSequenceNumber
  unfold StoreValueRequest.fields at h
  cases hk : q.publicKey with
  | none =>
    rw [hk] at h
    cases h
    simp only [List.length_cons, List.length_nil, List.map_cons, List.map_nil, List.sum_cons,
      List.sum_nil]
    omega
  | some publicKey =>
    rw [hk] at h
    obtain ⟨nonce, -, h⟩ := bind_eq_ok_iff.mp h
    obtain ⟨signature, hsig, h⟩ := bind_eq_ok_iff.mp h
    cases h
    have howner :=
      size_owner publicKey q.recipient nonce q.sequenceNumber (hr _ (valueOr_eq_ok hsig))
    refine ⟨le_rfl, ?_⟩
    simp only [List.map_cons, List.map_nil, List.sum_cons, List.sum_nil]
    omega

theorem AnnouncePeerRequest.size_fields {q : AnnouncePeerRequest}
    (hurl : BoundedURL q.alternativeURL) (hsig : q.signature.length ≤ SIGNATURE_BYTES) :
    22 + (q.fields.map fieldSize).sum ≤ q.estimateSize := by
  have htoken := fieldSize_some_le KEY_REQ_TOKEN (k := 3) rfl (by decide) (size_int32 q.token)
  have htarget := fieldSize_some_le KEY_REQ_TARGET (k := 1) rfl (by decide) (size_id q.peerId).le
  have hport := fieldSize_some_le KEY_REQ_PORT (k := 1) rfl (by decide) (size_port q.port)
  have hsig' := fieldSize_some_le KEY_REQ_SIGNATURE (k := 3) rfl (by decide) (size_signature hsig)
  -- the estimate leaves room for the proxy where there is none
  have hproxy := fieldSize_id KEY_REQ_PROXY_ID (k := 1) rfl (by decide) q.nodeId
  have halt :
      fieldSize (KEY_REQ_ALT, if q.alternativeURL ≠ [] then
      some (.str q.alternativeURL) else none) ≤
      1 + if q.alternativeURL = [] then 0 else 6 + (cStr q.alternativeURL).length := by
    by_cases h0 : q.alternativeURL = []
    · rw [if_neg (not_not.mpr h0), fieldSize_none]
      exact Nat.zero_le _
    · have := fieldSize_some_le KEY_REQ_ALT (k := 3) rfl (by decide) (size_str hurl.1)
      rw [if_pos h0, if_neg h0, cStr_eq hurl]
      omega
  simp only [fields, estimateSize, SIGNATURE_BYTES, Message.BASE_SIZE, List.map_cons, List.map_nil,
    List.sum_cons, List.sum_nil] at hsig' ⊢
  omega

/-- An object with the fields of a body. -/
theorem size_body {fields : List (Text × Option Json)} {m n : Nat} (hlen : fields.length = n)
    (hn : n < 24) (h : 22 + (fields.map fieldSize).sum ≤ m) :
    21 + (Json.object fields).size ≤ m := by
  have := size_object_le (hlen.trans_lt hn)
  omega

theorem size_error {code : Int32} {message : Text} (h : message.length < 65536) :
    22 + (([(KEY_ERR_CODE, some (.int code.toInt)), (KEY_ERR_MESSAGE, some (.str message))] :
      List (Text × Option Json)).map fieldSize).sum ≤ Message.BASE_SIZE + 16 + message.length := by
  have hcode := fieldSize_some_le KEY_ERR_CODE (k := 1) rfl (by decide) (size_int32 code)
  have hmessage := fieldSize_some_le KEY_ERR_MESSAGE (k := 1) rfl (by decide) (size_str h)
  simp only [Message.BASE_SIZE, List.map_cons, List.map_nil, List.sum_cons, List.sum_nil]
  omega

/-- The body of a message. -/
theorem Message.size_content {self : Message} (hb : self.content.Bounded)
    (hr : self.content.Regular) {body : Option Json} (h : self.content.serialize = .ok body)
    {j : Json} (hj : body = some j) :
    21 + j.size ≤ self.estimateSize := by
  subst hj
  unfold estimateSize
  cases hc : self.content with
  | pingRequest | pingResponse | announcePeerResponse | storeValueResponse =>
    rw [hc] at h
    cases h
  | errorMessage method code message =>
    rw [hc] at h hb
    cases h
    exact size_body (n := 2) rfl (by decide) (size_error hb)
  | findNodeRequest q | findPeerRequest q =>
    rw [hc] at h
    cases h
    have := q.size_fields
    exact size_body (n := 2) rfl (by decide)
      (by simp only [LookupRequest.ESTIMATE, BASE_SIZE]; omega)
  | findValueRequest q sequenceNumber =>
    rw [hc] at h
    cases h
    have := q.size_fields
    have := fieldSize_seq KEY_REQ_SEQ (k := 3) rfl (by decide) sequenceNumber
    refine size_body (n := 3) rfl (by decide) ?_
    simp only [LookupRequest.ESTIMATE, BASE_SIZE, List.map_append, List.sum_append_nat,
      List.map_cons, List.map_nil, List.sum_cons, List.sum_nil]
    omega
  | announcePeerRequest q =>
    rw [hc] at h hb hr
    cases h
    exact size_body (n := 6) rfl (by decide) (AnnouncePeerRequest.size_fields hb.1 hr)
  | storeValueRequest q =>
    rw [hc] at h hb hr
    obtain ⟨fields, hfields, hj⟩ := map_eq_ok_iff.mp h
    cases hj
    obtain ⟨hlen, hsum⟩ := StoreValueRequest.size_fields hb hr hfields
    exact size_body rfl (by omega) (by simp only [BASE_SIZE]; omega)
  | findNodeResponse r =>
    rw [hc] at h hb hr
    cases h
    have := LookupResponse.size_fields hb hr
    simp only [BASE_SIZE] at this
    refine size_body (n := 3) rfl (by decide) ?_
    show _ ≤ r.estimateSize
    omega
  | findPeerResponse r peers =>
    rw [hc] at h hb hr
    cases h
    have h1 := LookupResponse.size_fields hb.1 hr
    have h2 := size_peers (r := r) hb.2.1 hb.2.2
    refine size_body (n := 4) rfl (by decide) ?_
    simp only [BASE_SIZE, List.map_append, List.sum_append_nat, List.map_cons, List.map_nil,
      List.sum_cons, List.sum_nil] at h1 ⊢
    omega
  | findValueResponse r v =>
    rw [hc] at h hb hr
    obtain ⟨fields, hfields, hj⟩ := map_eq_ok_iff.mp h
    cases hj
    have h1 := LookupResponse.size_fields hb.1 hr.1
    obtain ⟨hlen, hsum⟩ := ValueFields.size_fields hb.2 hr.2 hfields
    refine size_body List.length_append ?_ ?_
    · show 3 + fields.length < 24
      omega
    · simp only [BASE_SIZE, List.map_append, List.sum_append_nat] at h1 ⊢
      omega

theorem Message.base_le_estimateSize (self : Message) : BASE_SIZE ≤ self.estimateSize := by
  unfold estimateSize LookupRequest.ESTIMATE AnnouncePeerRequest.estimateSize estimatePeersSize
    LookupResponse.estimateSize
  split <;> try omega
  split <;> omega

/-- The whole object: the body is written under the key of the type. -/
theorem Message.size_serialize {self : Message} (hb : self.content.Bounded)
    (hr : self.content.Regular) {json : Json} (h : self.serialize = .ok json) :
    json.size ≤ self.estimateSize := by
  obtain ⟨body, hbody, h⟩ := bind_eq_ok_iff.mp h
  cases h
  have hbase := self.base_le_estimateSize
  have htype : (Json.int (self.getType.value ||| self.getMethod.value).toNat).size ≤ 2 := by
    rw [size, if_pos (Int.natCast_nonneg _), Int.toNat_natCast]
    exact headSize_le_two (UInt8.toNat_lt _)
  have h1 := fieldSize_some_le KEY_TYPE (k := 1) rfl (by decide) htype
  have h2 := fieldSize_some_le KEY_TXID (k := 1) rfl (by decide) (size_int32 self.txid)
  have h3 := fieldSize_some_le KEY_VERSION (k := 1) rfl (by decide) (size_int32 self.version)
  have hkey : self.getType.keyString.length = 1 := by
    cases self.getType <;> rfl
  have h4 := fieldSize_le _ (n := self.estimateSize - 21) hkey (by decide) fun j hj => by
    have := size_content hb hr hbody hj
    omega
  refine (size_object_le ?_).trans ?_
  · show 4 < 24
    decide
  simp only [BASE_SIZE, List.map_cons, List.map_nil, List.sum_cons, List.sum_nil] at hbase ⊢
  omega

/-- The estimate is an upper bound for the encoding of every message with signatures of at most
`Signature::BYTES` bytes and no IPv6 address in the list of IPv4 nodes. -/
theorem Message.size_le_estimateSize (self : Message) (hb : self.content.Bounded)
    (hr : self.content.Regular) (json : Json) (h : self.serialize = .ok json) :
    ∃ bytes, json.toCbor = some bytes ∧ bytes.length ≤ self.estimateSize := by
  obtain ⟨bytes, hbytes⟩ := encodes_serialize h
  refine ⟨bytes, hbytes, ?_⟩
  rw [Json.length_toCbor json bytes hbytes]
  exact size_serialize hb hr h

/-- An announcement with a signature of `n` bytes. -/
def announceMessage (n : Nat) : Message where
  content := .announcePeerRequest { token := 1, port := 39001, signature := List.replicate n 7 }

theorem announceMessage_size :
    ∃ json bytes, (announceMessage 64).serialize = .ok json ∧ json.toCbor = some bytes ∧
      bytes.length ≤ (announceMessage 64).estimateSize := by
  obtain ⟨bytes, hbytes, hle⟩ := Message.size_le_estimateSize (announceMessage 64)
    ⟨⟨by decide, by decide⟩, by decide⟩ (Nat.le_refl 64) _ rfl
  exact ⟨_, bytes, rfl, hbytes, hle⟩

/-- A response with eight nodes of the wrong family. -/
def misfiled : Message where
  content := .findNodeResponse
    { nodes4 :=
      List.replicate 8 { nodeId := Id.MAX_ID, sockaddr := .inet6 (Bytes.fill 16 1) 39001 0 0 } }

/-- Nothing checks the size of a signature that is parsed, or that a list of nodes holds nodes of
its family. -/
theorem estimate_exceeded :
    ((announceMessage 200).content.Bounded ∧
      ∃ json bytes, (announceMessage 200).serialize = .ok json ∧ json.toCbor = some bytes ∧
        (announceMessage 200).estimateSize < bytes.length) ∧
    misfiled.content.Bounded ∧
      ∃ json bytes, misfiled.serialize = .ok json ∧ json.toCbor = some bytes ∧
        misfiled.estimateSize < bytes.length :=
  ⟨⟨⟨⟨by decide, by decide⟩, by decide +kernel⟩, _, _, rfl, rfl, by decide +kernel⟩,
    ⟨by decide, by decide⟩, _, _, rfl, rfl, by decide +kernel⟩

end Boson
