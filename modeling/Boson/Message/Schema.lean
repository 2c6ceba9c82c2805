import Boson.Message.Parse

/-!
# What a message has to look like

`Message::parse` has no description of a message apart from its loops. Here is one: every key of a
subclass wants a value of a `Shape`, and a shape tells for every JSON value whether it fits and, if
not, how the code notices (`Shape.flaw`): by an exception, which drops the packet, or in a way that
is fatal. There are two such ways: a row of a node that ends too early is read past its end, and a
nonce of the wrong size fails an assertion.

* `flaw_parse`: the first field that does not fit decides how `Message::parse` fails, so it returns
  a message exactly if every field fits.
* `parse_content`: the content of the message is what its body makes of it, field by field.
-/

namespace Boson

open FoldM

/-- `ID_BYTES`. -/
abbrev ID_BYTES : Nat := 32

/-- What a key wants. -/
inductive Shape where
  | anything
  | nothing
  | id
  | binary
  | nonce
  | number
  | text
  | nodes
  | peers
  deriving DecidableEq, Repr

namespace Json

/-- A number, or what `get<int>()` takes for one. -/
def isNumber : Json → Bool
  | int _ | float _ | bool _ => true
  | _ => false

/-- A node row with fewer than three items, of which those before the third are binary: the next
item is read outside of the array. -/
def isShortRow : Json → Bool
  | arr [] | arr [bin _] | arr [bin _, bin _] => true
  | _ => false

/-- An id, an address of 4 or 16 bytes and a port. -/
def isNodeRow : Json → Bool
  | arr (bin id :: bin ip :: port :: _) =>
    id.length = ID_BYTES && (ip.length = 4 || ip.length = 16) && port.isNumber
  | _ => false

/-- How a row of a node fails. -/
def rowFlaw (row : Json) : Option Flaw :=
  if row.isShortRow then some .fatal else if row.isNodeRow then none else some .malformed

/-- A blob of `n` bytes. -/
def isBlob (n : Nat) : Json → Bool
  | bin b => b.length = n
  | _ => false

/-- A node, an origin or `null`, a port that is not 0, a URL or `null`, and a signature. -/
def isPeerRow : List Json → Bool
  | id :: origin :: port :: alt :: sig :: _ =>
    id.isBlob ID_BYTES && (isNull origin || origin.isBlob 0 || origin.isBlob ID_BYTES) &&
      isPort port &&
      isUrl alt && sig.isBlob SIGNATURE_BYTES
  | _ => false
where
  isNull : Json → Bool
    | null => true
    | _ => false
  isPort (port : Json) : Bool :=
    match port.getNumber with
    | .ok n => UInt16.ofInt n ≠ 0
    | .error _ => false
  isUrl : Json → Bool
    | null | str _ => true
    | _ => false

@[simp] theorem isBlob_bin (n : Nat) (b : List UInt8) : (bin b).isBlob n = decide (b.length = n) :=
  rfl

theorem isPeerRow_short {row : List Json} (h : row.length < 5) : isPeerRow row = false := by
  unfold isPeerRow
  split
  · simp only [List.length_cons] at h
    omega
  · rfl

/-- The rows of peers; `peerId` is the id that stands before them. -/
def arePeers (peerId : List UInt8) : List Json → Bool
  | [] => true
  | arr row :: items => peerId.length = ID_BYTES && isPeerRow row && arePeers peerId items
  | bin id :: items => arePeers id items
  | _ :: _ => false

end Json

/-- Whether a value has the shape, and what happens if it has not. -/
def Shape.flaw (B : Build) : Shape → Json → Option Flaw
  | anything, _ => none
  | id, .bin b => if b.length = ID_BYTES then none else some .malformed
  | binary, .bin _ => none
  | nonce, .bin b =>
    if b.length = 24 then none else some (if B.asserts then .fatal else .malformed)
  | number, j => if j.isNumber then none else some .malformed
  | text, .str _ => none
  | nodes, .arr rows => rows.findSome? Json.rowFlaw
  | peers, .arr items => if Json.arePeers [] items then none else some .malformed
  | _, _ => some .malformed

/-! ## The keys of the subclasses -/

/-- The shapes of the fields of a value. -/
def ValueFields.shape (key : Text) : Option Shape :=
  if key = KEY_REQ_PUBLICKEY then some .id
  else if key = KEY_REQ_RECIPIENT then some .id
  else if key = KEY_REQ_NONCE then some .nonce
  else if key = KEY_REQ_SIGNATURE then some .binary
  else if key = KEY_REQ_SEQ then some .number
  else if key = KEY_RES_VALUE then some .binary
  else none

/-- The shapes of the fields of a `LookupRequest`. -/
def LookupRequest.shape (key : Text) : Option Shape :=
  if key = KEY_REQ_TARGET then some .id else if key = KEY_REQ_WANT then some .number else none

/-- The shapes of the fields of a `LookupResponse`. -/
def LookupResponse.shape (key : Text) : Option Shape :=
  if key = KEY_RES_NODES4 then some .nodes
  else if key = KEY_RES_NODES6 then some .nodes
  else if key = KEY_RES_TOKEN then some .number
  else none

/-- The shape that a key of the body wants. -/
def Content.shape (self : Content) (key : Text) : Shape :=
  match self with
  | errorMessage .. =>
    if key = KEY_ERR_CODE then .number else if key = KEY_ERR_MESSAGE then .text else .nothing
  | findNodeRequest _ | findPeerRequest _ => (LookupRequest.shape key).getD .anything
  | findValueRequest .. =>
    (LookupRequest.shape key).getD (if key = KEY_REQ_SEQ then .number else .nothing)
  | announcePeerRequest _ =>
    if key = KEY_REQ_TARGET then .id
    else if key = KEY_REQ_PROXY_ID then .id
    else if key = KEY_REQ_PORT then .number
    else if key = KEY_REQ_ALT then .text
    else if key = KEY_REQ_SIGNATURE then .binary
    else if key = KEY_REQ_TOKEN then .number
    else .nothing
  | storeValueRequest _ =>
    (ValueFields.shape key).getD
      (if key = KEY_REQ_CAS then .number else if key = KEY_REQ_TOKEN then .number else .nothing)
  | findNodeResponse _ => (LookupResponse.shape key).getD .anything
  | findPeerResponse .. =>
    (LookupResponse.shape key).getD (if key = KEY_RES_PEERS then .peers else .nothing)
  | findValueResponse .. => (LookupResponse.shape key).getD ((ValueFields.shape key).getD .nothing)
  | _ => .anything

/-- How the reading of a body fails. -/
def Content.flaw (B : Build) (self : Content) (fieldName : Text) (object : Json) : Option Flaw :=
  match self.bodyKey with
  | none => none
  | some (key, _) =>
    if fieldName ≠ key then some .malformed
    else match object with
      | .obj fields => fields.findSome? fun f => (self.shape f.1).flaw B f.2
      | _ => some .malformed

namespace Message

/-- A field that holds a body. -/
def isBody (key : Text) : Bool := key = KEY_REQUEST || key = KEY_RESPONSE || key = KEY_ERROR

/-- How the reading of a field of the message fails. -/
def fieldFlaw (B : Build) (content : Content) (field : Text × Json) : Option Flaw :=
  if field.1 = KEY_TXID ∨ field.1 = KEY_VERSION then Shape.number.flaw B field.2
  else if isBody field.1 then content.flaw B field.1 field.2
  else none

/-- The fields of all bodies of a message. -/
def bodyFields (fields : List (Text × Json)) : List (Text × Json) :=
  fields.flatMap fun f =>
    match f.2 with
    | .obj body => if isBody f.1 then body else []
    | _ => []

/-- How `Message::parse` fails. -/
def parseFlaw (B : Build) (stray : Stray) : Json → Option Flaw
  | .obj fields =>
    match create stray fields with
    | .ok m => fields.findSome? (fieldFlaw B m.content)
    | .error _ => some .malformed
  | _ => some .malformed

end Message

/-! ## The getters -/

section Getters

variable (B : Build) (j : Json)

@[simp] theorem flaw_getBinary : flaw j.getBinary = Shape.binary.flaw B j := by cases j <;> rfl

@[simp] theorem flaw_getString : flaw j.getString = Shape.text.flaw B j := by cases j <;> rfl

@[simp] theorem flaw_getNumber : flaw j.getNumber = Shape.number.flaw B j := by cases j <;> rfl

theorem flaw_getInt : flaw j.getInt = Shape.number.flaw B j := by
  rw [Json.getInt, flaw, failsAs_map]
  exact flaw_getNumber B j

theorem flaw_getUInt16 : flaw j.getUInt16 = Shape.number.flaw B j := by
  rw [Json.getUInt16, flaw, failsAs_map]
  exact flaw_getNumber B j

theorem flaw_getId : flaw j.getId = Shape.id.flaw B j := by
  cases j with
  | bin b =>
    simp only [Json.getId, Json.getBinary, Bind.bind, Except.bind, Shape.flaw, Id.ofBlob?]
    by_cases hb : b.length = ID_BYTES <;> simp [hb, Fault.flaw]
  | _ => rfl

theorem flaw_getNonce : flaw (j.getNonce B) = Shape.nonce.flaw B j := by
  cases j with
  | bin b =>
    simp only [Json.getNonce, Json.getBinary, Bind.bind, Except.bind, Shape.flaw, Bytes.ofList?]
    by_cases hb : b.length = 24
    · simp [hb]
    · by_cases hB : B.asserts = true <;> simp [hb, hB, Fault.flaw]
  | _ => rfl

theorem ofBlob?_isSome (ip : List UInt8) (port : UInt16) :
    (SocketAddress.ofBlob? ip port).isSome = (ip.length = 4 || ip.length = 16) := by
  unfold SocketAddress.ofBlob? Bytes.ofList?
  by_cases h4 : ip.length = 4
  · simp [h4]
  · by_cases h16 : ip.length = 16 <;> simp [h4, h16]

/-- The last step of the reading of a node row. -/
theorem flaw_ofBlob (id ip : List UInt8) (port : UInt16) :
    flaw (match Id.ofBlob? id with
      | none => .error (.exception Value.ID_SIZE_ERROR)
      | some id =>
        match SocketAddress.ofBlob? ip port with
        | none => .error (.exception "invalid ip lenght")
        | some sockaddr => .ok ({ nodeId := id, sockaddr := sockaddr } : NodeInfo)) =
      if id.length = ID_BYTES ∧ (ip.length = 4 ∨ ip.length = 16) then none
      else some .malformed := by
  have hip := ofBlob?_isSome ip port
  by_cases hid : id.length = ID_BYTES
  · cases ha : SocketAddress.ofBlob? ip port with
    | none => simp_all [Id.ofBlob?, Fault.flaw]
    | some a => simp_all [Id.ofBlob?]
  · simp [Id.ofBlob?, hid, Fault.flaw]

theorem flaw_getNodeInfo : flaw j.getNodeInfo = j.rowFlaw := by
  cases j with
  | arr items =>
    rcases items with _ | ⟨a, _ | ⟨b, _ | ⟨c, items⟩⟩⟩
    · rfl
    · cases a <;> rfl
    · cases a <;> cases b <;> rfl
    · have hlong : Json.isShortRow (.arr (a :: b :: c :: items)) = false := by
        cases a <;> cases b <;> rfl
      rw [Json.rowFlaw, hlong, if_neg Bool.false_ne_true]
      cases a with
      | bin id =>
        cases b with
        | bin ip =>
          have hport : failsAs Fault.flaw c.getInt = if c.isNumber then none else some .malformed :=
            flaw_getInt ⟨true⟩ c
          refine (failsAs_bind fun (port : Int32) _ =>
            flaw_ofBlob id ip (UInt16.ofInt port.toInt)).trans ?_
          rw [hport, Json.isNodeRow]
          by_cases hc : c.isNumber = true
          · simp [hc]
          · simp [hc]
        | _ => rfl
      | _ => rfl
  | _ => rfl

theorem flaw_parseNodes (nodes : List NodeInfo) : flaw (parseNodes j nodes) =
    Shape.nodes.flaw B j := by
  cases j with
  | arr rows =>
    refine failsAs_foldlM (fun nodes row _ => ?_) (fun _ _ _ _ _ => trivial)
      (P := fun _ => True) trivial
    rw [failsAs_map]
    exact flaw_getNodeInfo row
  | _ => rfl

end Getters

/-! ## Peers -/

section Peers

variable (C : Crypto)

theorem flaw_peerOf (peerId nodeId origin alt sig : List UInt8) (port : UInt16) :
    flaw (throwing (PeerInfo.of C peerId [] nodeId origin port alt sig)) =
      if peerId.length = ID_BYTES ∧ nodeId.length = ID_BYTES ∧
        (origin = [] ∨ origin.length = ID_BYTES) ∧
        port ≠ 0 ∧ sig.length = SIGNATURE_BYTES then none else some .malformed := by
  unfold PeerInfo.of Id.ofBlob?
  by_cases hp : peerId.length = ID_BYTES
  · by_cases hn : nodeId.length = ID_BYTES
    · by_cases ho : origin = [] ∨ origin.length = ID_BYTES
      · by_cases h0 : port = 0
        · obtain rfl | ho := ho <;> simp [*, throwing, Fault.flaw]
        · by_cases hs : sig.length = SIGNATURE_BYTES <;> obtain rfl | ho := ho <;>
            simp [*, throwing, Fault.flaw]
      · rw [not_or] at ho
        simp [hp, hn, ho, throwing, Fault.flaw]
    · simp [hp, hn, throwing, Fault.flaw]
  · simp [hp, throwing, Fault.flaw]

/-- The part of a row of a peer after its ids. -/
theorem flaw_peerTail (peerId id origin : List UInt8) (port alt sig : Json) :
    flaw (do
      let port ← port.getUInt16
      let alt ← orEmpty Json.getString alt
      let sig ← sig.getBinary
      throwing (PeerInfo.of C peerId [] id origin port alt sig)) =
      if peerId.length = ID_BYTES ∧ id.length = ID_BYTES ∧
        (origin = [] ∨ origin.length = ID_BYTES) ∧
        Json.isPeerRow.isPort port = true ∧ Json.isPeerRow.isUrl alt = true ∧
        sig.isBlob SIGNATURE_BYTES = true then none else some .malformed := by
  unfold Json.getUInt16 Json.isPeerRow.isPort
  have hnumber : flaw port.getNumber = if port.isNumber then none else some .malformed :=
    flaw_getNumber ⟨true⟩ port
  cases hport : port.getNumber with
  | error e =>
    rw [hport] at hnumber
    simp_all [Functor.map, Except.map, Bind.bind, Except.bind]
  | ok n =>
    cases sig with
    | bin sig =>
      cases alt with
      | null =>
        refine (flaw_peerOf C peerId id origin [] sig (UInt16.ofInt n)).trans ?_
        simp [Json.isPeerRow.isUrl, Json.isBlob]
      | str url =>
        refine (flaw_peerOf C peerId id origin url sig (UInt16.ofInt n)).trans ?_
        simp [Json.isPeerRow.isUrl, Json.isBlob]
      | _ =>
        simp [Functor.map, Except.map, orEmpty, Json.getString, Bind.bind, Except.bind, Fault.flaw,
          Json.isPeerRow.isUrl]
    | _ =>
      cases alt <;> simp [Functor.map, Except.map, orEmpty, Json.getString,
        Json.getBinary, Bind.bind, Except.bind, Fault.flaw, Json.isBlob]

/-- A row that is too short is an index out of range, unless an item before is wrong. -/
theorem flaw_getPeerInfo_short (peerId : List UInt8) {row : List Json} (h : row.length < 5) :
    flaw (getPeerInfo C peerId row) = some .malformed := by
  rcases row with _ | ⟨id, _ | ⟨origin, _ | ⟨port, _ | ⟨alt, _ | ⟨sig, row⟩⟩⟩⟩⟩
  · rfl
  · cases id <;> rfl
  · cases id with
    | bin id => cases origin <;> rfl
    | _ => rfl
  · cases id with
    | bin id =>
      cases origin with
      | null | bin origin => cases port <;> rfl
      | _ => rfl
    | _ => rfl
  · cases id with
    | bin id =>
      cases origin with
      | null | bin origin => cases port <;> cases alt <;> rfl
      | _ => rfl
    | _ => rfl
  · simp only [List.length_cons] at h
    omega

theorem flaw_getPeerInfo (peerId : List UInt8) (row : List Json) :
    flaw (getPeerInfo C peerId row) =
      if peerId.length = ID_BYTES ∧ Json.isPeerRow row = true then none else some .malformed := by
  by_cases hlen : row.length < 5
  · rw [flaw_getPeerInfo_short C peerId hlen, Json.isPeerRow_short hlen]
    simp
  · obtain ⟨id, origin, port, alt, sig, row, rfl⟩ : ∃ id origin port alt sig tail,
        row = id :: origin :: port :: alt :: sig :: tail := by
      rcases row with _ | ⟨id, _ | ⟨origin, _ | ⟨port, _ | ⟨alt, _ | ⟨sig, row⟩⟩⟩⟩⟩
      all_goals simp at hlen ⊢
    simp only [Json.isPeerRow]
    cases id with
    | bin id =>
      cases origin with
      | null =>
        refine (flaw_peerTail C peerId id [] port alt sig).trans ?_
        simp [Json.isPeerRow.isNull, and_assoc]
      | bin origin =>
        refine (flaw_peerTail C peerId id origin port alt sig).trans ?_
        simp [Json.isPeerRow.isNull, and_assoc]
      | _ =>
        simp [getPeerInfo, Json.itemAt, Json.getBinary, orEmpty, Json.isBlob, Json.isPeerRow.isNull,
          Bind.bind, Except.bind, Fault.flaw]
    | _ => simp [getPeerInfo, Json.itemAt, Json.getBinary, Json.isBlob, Bind.bind, Except.bind,
        Fault.flaw]

theorem flaw_parsePeer_loop (peerId : List UInt8) (items : List Json) (peers : List PeerInfo) :
    flaw (items.foldlM (parsePeer C) (peerId, peers)) =
      if Json.arePeers peerId items then none else some .malformed := by
  induction items generalizing peerId peers with
  | nil => rfl
  | cons item items ih =>
    rw [List.foldlM_cons]
    cases item with
    | bin id => exact ih id peers
    | arr row =>
      have hrow := flaw_getPeerInfo C peerId row
      have hstep : parsePeer C (peerId, peers) (.arr row) =
          (fun peer => (peerId, peers ++ [peer])) <$> getPeerInfo C peerId row := rfl
      rw [hstep]
      cases hp : getPeerInfo C peerId row with
      | error e =>
        rw [hp] at hrow
        have hbad : ¬ (peerId.length = ID_BYTES ∧ Json.isPeerRow row = true) := by
          intro h
          simp [h] at hrow
        have hbad' : ¬ Json.arePeers peerId (.arr row :: items) = true := by
          simp only [Json.arePeers, Bool.and_eq_true, decide_eq_true_eq]
          exact fun h => hbad h.1
        rw [if_neg hbad] at hrow
        rw [if_neg hbad']
        exact hrow
      | ok peer =>
        rw [hp] at hrow
        have hgood : peerId.length = ID_BYTES ∧ Json.isPeerRow row = true := by
          by_contra h
          simp [h] at hrow
        refine (ih peerId (peers ++ [peer])).trans ?_
        simp [Json.arePeers, hgood]
    | _ => rfl

theorem flaw_parsePeers (B : Build) (peers : List PeerInfo) (key : Text) (value : Json) :
    flaw (parsePeers C peers key value) =
      if key = KEY_RES_PEERS then Shape.peers.flaw B value else some .malformed := by
  cases value with
  | arr items =>
    by_cases hk : key = KEY_RES_PEERS
    · simp only [parsePeers, hk, if_true, flaw, failsAs_map, Shape.flaw]
      exact flaw_parsePeer_loop C [] items peers
    · simp only [parsePeers, hk, if_false]
      rfl
  | _ => by_cases hk : key = KEY_RES_PEERS <;> simp [parsePeers, hk, Shape.flaw, Fault.flaw]

end Peers

/-! ## The bodies -/

section Bodies

variable (C : Crypto) (B : Build) (key : Text) (value : Json)

theorem flaw_lookupRequest (q : LookupRequest) :
    (q.parseField key value).map flaw = (LookupRequest.shape key).map (·.flaw B value) := by
  unfold LookupRequest.parseField LookupRequest.shape
  split_ifs <;> simp [flaw_getId B, flaw_getInt B]

theorem flaw_lookupResponse (r : LookupResponse) :
    (r.parseField key value).map flaw = (LookupResponse.shape key).map (·.flaw B value) := by
  unfold LookupResponse.parseField LookupResponse.shape
  split_ifs <;> simp [flaw_parseNodes B, flaw_getInt B]

theorem flaw_valueFields (v : ValueFields) {seqOf : Json → Except Fault Int32}
    (hseq : flaw (seqOf value) = Shape.number.flaw B value) :
    (v.parseField B seqOf key value).map flaw = (ValueFields.shape key).map (·.flaw B value) := by
  unfold ValueFields.parseField ValueFields.shape
  split_ifs <;> simp [flaw_getId B, flaw_getNonce B, flaw_getBinary B, hseq]

/-- A key that both sides ask for. -/
theorem flaw_ite {α : Type} {B : Build} {value : Json} {p : Prop} [Decidable p]
    {x y : Except Fault α} {s t : Shape}
    (hx : p → flaw x = s.flaw B value) (hy : ¬ p → flaw y = t.flaw B value) :
    flaw (if p then x else y) = (if p then s else t).flaw B value := by
  split_ifs with h
  · exact hx h
  · exact hy h

theorem flaw_announcePeer (q : AnnouncePeerRequest) :
    flaw (q.parseField key value) = ((Content.announcePeerRequest q).shape key).flaw B value := by
  unfold AnnouncePeerRequest.parseField Content.shape
  -- one key after the other
  refine flaw_ite (fun _ => ?_) fun _ => flaw_ite (fun _ => ?_) fun _ =>
    flaw_ite (fun _ => ?_) fun _ =>
    flaw_ite (fun _ => ?_) fun _ => flaw_ite (fun _ => ?_) fun _ =>
      flaw_ite (fun _ => ?_) fun _ => ?_
  · rw [flaw, failsAs_map]
    exact flaw_getId B value
  · rw [flaw, failsAs_map]
    exact flaw_getId B value
  · rw [flaw, failsAs_map]
    exact flaw_getUInt16 B value
  · rw [flaw, failsAs_map]
    exact flaw_getString B value
  · rw [flaw, failsAs_map]
    exact flaw_getBinary B value
  · rw [flaw, failsAs_map]
    exact flaw_getInt B value
  · simp [Shape.flaw, Fault.flaw]

variable {B value}

/-- The base class reads its own fields (`o`) and leaves the others to the subclass. -/
theorem flaw_cases {α β : Type} {o : Option (Except Fault α)} {s : Option Shape}
    (h : o.map flaw = s.map (·.flaw B value)) {x : Except Fault β} {shape : Shape}
    (hsome : ∀ r, o = some r → flaw x = flaw r) (hnone : o = none → flaw x = shape.flaw B value) :
    flaw x = (s.getD shape).flaw B value := by
  cases o with
  | none =>
    cases s with
    | none => exact hnone rfl
    | some s => cases h
  | some r =>
    cases s with
    | none => cases h
    | some s => exact (hsome r rfl).trans (Option.some.inj h)

theorem flaw_getD {α : Type} {o : Option (Except Fault α)} {s : Option Shape}
    (h : o.map flaw = s.map (·.flaw B value)) {rest : Except Fault α} {shape : Shape}
    (hrest : flaw rest = shape.flaw B value) : flaw (o.getD rest) = (s.getD shape).flaw B value :=
  flaw_cases h (fun r hr => by rw [hr, Option.getD_some]) fun ho => by rwa [ho, Option.getD_none]

variable (B value)

theorem flaw_storeValue (q : StoreValueRequest) :
    flaw (q.parseField B key value) = ((Content.storeValueRequest q).shape key).flaw B value := by
  have hseq : flaw (getSeq16 value) = Shape.number.flaw B value := by
    rw [getSeq16, flaw, failsAs_map]
    exact flaw_getUInt16 B value
  refine flaw_cases (flaw_valueFields B key value q.toValueFields hseq)
    (fun r hr => ?_) fun hn => ?_
  · simp [StoreValueRequest.parseField, hr]
  · simp only [StoreValueRequest.parseField, hn]
    split_ifs <;> simp [flaw_getInt B, Shape.flaw, Fault.flaw]

/-- A field of a body fails as its shape says. -/
theorem flaw_parseField (c : Content) :
    flaw (c.parseField C B key value) = (c.shape key).flaw B value := by
  cases c with
  | errorMessage method code message =>
    unfold Content.parseField Content.shape
    dsimp only
    split_ifs <;> simp [flaw_getInt B, flaw_getString B, Shape.flaw, Fault.flaw]
  | findNodeRequest q | findPeerRequest q =>
    refine failsAs_map.trans (flaw_getD (flaw_lookupRequest B key value q) ?_)
    rfl
  | findValueRequest q seq =>
    refine flaw_cases (flaw_lookupRequest B key value q) (fun r hr => ?_) fun hn => ?_
    · simp [Content.parseField, hr]
    · simp only [Content.parseField, hn]
      split_ifs <;> simp [flaw_getInt B, Shape.flaw, Fault.flaw]
  | announcePeerRequest q => exact failsAs_map.trans (flaw_announcePeer B key value q)
  | storeValueRequest q => exact failsAs_map.trans (flaw_storeValue B key value q)
  | findNodeResponse r =>
    refine failsAs_map.trans (flaw_getD (flaw_lookupResponse B key value r) ?_)
    rfl
  | findPeerResponse r peers =>
    refine flaw_cases (flaw_lookupResponse B key value r) (fun r hr => ?_) fun hn => ?_
    · simp [Content.parseField, hr]
    · simp only [Content.parseField, hn, flaw, failsAs_map]
      refine (flaw_parsePeers C B peers key value).trans ?_
      split_ifs <;> rfl
  | findValueResponse r v =>
    refine flaw_cases (flaw_lookupResponse B key value r) (fun r hr => ?_) fun hn => ?_
    · simp [Content.parseField, hr]
    · simp only [Content.parseField, hn, flaw, failsAs_map]
      exact flaw_getD (flaw_valueFields B key value v (flaw_getInt B value)) rfl
  | _ => rfl

/-- Two contents of one subclass. -/
structure Content.Alike (c c' : Content) : Prop where
  ctorIdx : c'.ctorIdx = c.ctorIdx
  shape : c'.shape = c.shape
  bodyKey : c'.bodyKey = c.bodyKey

variable {C B key value}

/-- A field does not change the subclass. -/
theorem parseField_alike {c c' : Content}
    (h : c.parseField C B key value = .ok c') : c.Alike c' := by
  cases c with
  | errorMessage method code message =>
    simp only [Content.parseField] at h
    split_ifs at h
    all_goals
      obtain ⟨a, -, rfl⟩ := map_eq_ok_iff.mp h
      exact ⟨rfl, rfl, rfl⟩
  | findValueRequest q seq => 
    simp only [Content.parseField] at h
    split at h
    · obtain ⟨a, -, rfl⟩ := map_eq_ok_iff.mp h
      exact ⟨rfl, rfl, rfl⟩
    · split_ifs at h
      obtain ⟨a, -, rfl⟩ := map_eq_ok_iff.mp h
      exact ⟨rfl, rfl, rfl⟩
  | findPeerResponse | findValueResponse =>
    simp only [Content.parseField] at h
    split at h
    all_goals
      obtain ⟨a, -, rfl⟩ := map_eq_ok_iff.mp h
      exact ⟨rfl, rfl, rfl⟩
  | pingRequest | pingResponse | announcePeerResponse | storeValueResponse =>
    cases h
    exact ⟨rfl, rfl, rfl⟩
  | _ =>
    obtain ⟨a, -, rfl⟩ := map_eq_ok_iff.mp h
    exact ⟨rfl, rfl, rfl⟩

theorem Content.Alike.refl (c : Content) : c.Alike c := ⟨rfl, rfl, rfl⟩

theorem Content.Alike.trans {c c' c'' : Content} (h : c.Alike c')
    (h' : c'.Alike c'') : c.Alike c'' :=
  ⟨h'.ctorIdx.trans h.ctorIdx, h'.shape.trans h.shape, h'.bodyKey.trans h.bodyKey⟩

theorem Content.Alike.flaw_eq {c c' : Content} (h : c.Alike c') : c'.flaw B = c.flaw B := by
  unfold Content.flaw
  rw [h.shape, h.bodyKey]

/-- A body is read up to the first field that does not fit. -/
theorem flaw_parseBody (c : Content) (fieldName : Text) (object : Json) :
    flaw (c.parse C B fieldName object) = c.flaw B fieldName object := by
  unfold Content.parse Content.flaw
  cases c.bodyKey with
  | none => rfl
  | some key =>
    dsimp only
    split_ifs with hname
    · rfl
    · cases object with
      | obj fields =>
        refine failsAs_foldlM (P := c.Alike) (fun c' f hc => ?_) (fun _ _ _ h hc => ?_) (.refl c)
        · rw [← hc.shape]
          exact flaw_parseField C B f.1 f.2 c'
        · exact hc.trans (parseField_alike h)
      | _ => rfl

theorem parse_alike {c c' : Content} {fieldName : Text} {object : Json}
    (h : c.parse C B fieldName object = .ok c') : c.Alike c' := by
  unfold Content.parse at h
  split at h
  · cases h
    exact .refl c
  · split_ifs at h
    split at h
    · exact foldlM_keeps (fun _ _ _ h hc => Content.Alike.trans hc (parseField_alike h)) h (.refl c)
    · cases h

end Bodies

/-! ## The message -/

namespace Message

variable {C : Crypto} {B : Build} {stray : Stray} {m m' : Message}

theorem flaw_field (m : Message) (f : Text × Json) :
    flaw (m.parseField C B f) = fieldFlaw B m.content f := by
  unfold Message.parseField fieldFlaw isBody
  split_ifs <;> simp_all [flaw_getInt B, flaw_parseBody]

theorem field_alike {f : Text × Json} (h : m.parseField C B f = .ok m') :
    m.content.Alike m'.content := by
  unfold Message.parseField at h
  split_ifs at h
  · obtain ⟨a, -, rfl⟩ := map_eq_ok_iff.mp h
    exact .refl _
  · obtain ⟨a, -, rfl⟩ := map_eq_ok_iff.mp h
    exact .refl _
  · obtain ⟨a, ha, rfl⟩ := map_eq_ok_iff.mp h
    exact parse_alike ha
  · cases h
    exact .refl _

theorem flaw_createMessage {messageType : UInt8} {e : Fault}
    (h : createMessage stray messageType = .error e) : e.flaw = .malformed := by
  unfold createMessage at h
  cases ht : MessageType.valueOf messageType with
  | error e' =>
    rw [ht] at h
    cases h
    unfold MessageType.valueOf at ht
    split at ht <;> cases ht
    rfl
  | ok type =>
    cases hm : Method.valueOf messageType with
    | error e' =>
      rw [ht, hm] at h
      cases h
      unfold Method.valueOf at hm
      split at hm <;> cases hm
      rfl
    | ok method =>
      rw [ht, hm] at h
      cases type <;> cases method <;> cases h <;> rfl

theorem flaw_create {fields : List (Text × Json)} {e : Fault} (h : create stray fields = .error e) :
    e.flaw = .malformed := by
  unfold create at h
  split at h
  · cases h
    rfl
  · next type _ =>
    cases hn : type.getNumber with
    | error e' =>
      rw [hn] at h
      cases h
      cases type <;> cases hn <;> rfl
    | ok n =>
      rw [hn] at h
      cases hc : createMessage stray (UInt8.ofInt n) with
      | error e' =>
        simp only [Bind.bind, Except.bind, hc, Functor.map, Except.map, Except.error.injEq] at h
        rw [← h]
        exact flaw_createMessage hc
      | ok c => simp [Bind.bind, Except.bind, hc, Functor.map, Except.map] at h

/-- The first field that does not fit decides how `Message::parse` fails. -/
theorem flaw_parse (C : Crypto) (B : Build) (stray : Stray) (root : Json) :
    flaw (parse C B stray root) = parseFlaw B stray root := by
  cases root with
  | obj fields =>
    simp only [parse, parseFlaw]
    cases hc : create stray fields with
    | error e => exact congrArg some (flaw_create hc)
    | ok m =>
      refine failsAs_foldlM (P := fun m' => m.content.Alike m'.content) (fun m' f hm => ?_)
        (fun _ _ _ h hm => hm.trans (field_alike h)) (.refl _)
      refine (flaw_field m' f).trans ?_
      simp only [fieldFlaw, hm.flaw_eq]
  | _ => rfl

/-- What a body makes of a content is what its fields make of it, one by one. -/
theorem field_content {f : Text × Json} (hbody : m.content.bodyKey ≠ none)
    (h : m.parseField C B f = .ok m') :
    (bodyFields [f]).foldlM (fun c f => c.parseField C B f.1 f.2) m.content = .ok m'.content := by
  unfold Message.parseField at h
  obtain ⟨key, value⟩ := f
  dsimp only at h
  split_ifs at h with ht hv hb
  · obtain ⟨a, -, rfl⟩ := map_eq_ok_iff.mp h
    subst ht
    cases value <;> rfl
  · obtain ⟨a, -, rfl⟩ := map_eq_ok_iff.mp h
    subst hv
    cases value <;> rfl
  · obtain ⟨c, hc, rfl⟩ := map_eq_ok_iff.mp h
    have hb' : isBody key = true := by simpa [isBody, or_assoc] using hb
    unfold Content.parse at hc
    split at hc
    · next hnone => exact absurd hnone hbody
    · split_ifs at hc
      cases value with
      | obj body => simpa [bodyFields, hb'] using hc
      | _ => cases hc
  · cases h
    have hb' : isBody key = false := by simpa [isBody, and_assoc] using hb
    have hnil : bodyFields [(key, value)] = [] := by cases value <;> simp [bodyFields, hb']
    rw [hnil]
    rfl

theorem parse_content {fields : List (Text × Json)} (hbody : m.content.bodyKey ≠ none)
    (h : fields.foldlM (parseField C B) m = .ok m') :
    (bodyFields fields).foldlM (fun c f => c.parseField C B f.1 f.2) m.content =
      .ok m'.content := by
  induction fields generalizing m with
  | nil =>
    cases h
    rfl
  | cons f fields ih =>
    rw [List.foldlM_cons] at h
    cases hf : m.parseField C B f with
    | error e =>
      rw [hf] at h
      cases h
    | ok m₁ =>
      rw [hf] at h
      have hbody₁ : m₁.content.bodyKey ≠ none := by rwa [(field_alike hf).bodyKey]
      have hsplit : bodyFields (f :: fields) = bodyFields [f] ++ bodyFields fields := by
        simp [bodyFields]
      rw [hsplit, List.foldlM_append, field_content hbody hf]
      exact ih hbody₁ h

end Message

end Boson
