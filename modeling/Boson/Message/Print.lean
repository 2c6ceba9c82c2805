import Boson.Crypto.Hex
import Boson.Message.Schema

/-!
# Printing messages (`Message::toString`)

`toString` prints a message piece by piece. A piece fails where an optional field that is printed
has no value, and, in a build with assertions, where an empty blob is printed in hexadecimal.

* `toString_ok_iff`: the messages that can be printed.
* `parse_printable`: for a message that was parsed, whether it can be printed is seen in its JSON.
  What matters is which of the fields `k`, `n`, `sig` and `v` the body has, and which of them are
  empty.
-/

namespace Boson

open FoldM

/-- A text of the source. -/
def lit (s : String) : Text := s.toList.map Char.toUInt8

/-- `std::to_string`. -/
def num (n : Int) : Text := lit (toString n)

/-- `optional::value()`. -/
def valueOr {α : Type} : Option α → Except Fault α
  | some a => .ok a
  | none => .error (.exception "bad optional access")

/-- `Version::toString`. -/
def Version.toString (version : Int32) : Text :=
  if version = 0 then lit "N/A"
  else
    let v := version.toUInt32
    let n := [(v >>> 24).toUInt8, ((v &&& 0x00ff0000) >>> 16).toUInt8].takeWhile (· ≠ 0)
    let name := if n = lit "OR" then lit "Orca" else if n = lit "MK" then lit "Meerkat" else n
    name ++ lit "/" ++ num (v &&& 0x0000ffff).toNat

/-- How ids and the hosts of addresses are printed. -/
structure Printer where
  id : Id → Text
  host : SocketAddress → Text

/-- What is printed: pieces that are written one after the other. -/
abbrev Pieces := List (Except Fault Text)

/-- A piece that is there anyway. -/
def text (s : String) : Except Fault Text := .ok (lit s)

/-- The output of a `stringstream`. -/
def Pieces.str (pieces : Pieces) : Except Fault Text :=
  pieces.foldlM (fun ss piece => (ss ++ ·) <$> piece) []

section Printing

variable (P : Printer) (B : Build)

/-- `NodeInfo::toString`. -/
def NodeInfo.toString (self : NodeInfo) : Text :=
  lit "<" ++ P.id self.nodeId ++ lit "," ++ P.host self.sockaddr ++ lit "," ++
    num self.sockaddr.port.toNat ++ lit ">"

/-- `PeerInfo::toString`. -/
def PeerInfo.toString (self : PeerInfo) : Text :=
  lit "<" ++ P.id self.publicKey ++ lit "," ++ P.id self.nodeId ++ lit "," ++
    (if self.isDelegated then P.id self.origin ++ lit "," else []) ++ num self.port.toNat ++
    (match self.alternativeURL with
      | some url => lit "," ++ url
      | none => []) ++ lit ">"

/-- `[a],[b],...`. -/
def bracketed (items : List Text) : Text :=
  (lit ",").intercalate (items.map fun item => lit "[" ++ item ++ lit "]")

/-- `LookupRequest::getWant`. -/
def LookupRequest.getWant (self : LookupRequest) : Nat :=
  (if self.want4 then 1 else 0) + (if self.want6 then 2 else 0) + if self.wantToken then 4 else 0

/-- `LookupRequest::toString`; `rest` is `_toString`. -/
def LookupRequest.pieces (self : LookupRequest) (rest : Pieces) : Pieces :=
  [text ",q:\x7bt:", .ok (P.id self.target), text ",w:", .ok (num self.getWant)] ++ rest ++
    [text "\x7d"]

/-- `LookupResponse::toString`; `rest` is `_toString`. -/
def LookupResponse.pieces (self : LookupResponse) (rest : Pieces) : Pieces :=
  [text ",r:\x7b"] ++
  (if self.nodes4 = [] then []
    else [text "n4:", .ok (bracketed (self.nodes4.map (·.toString P)))]) ++
  (if self.nodes6 = [] then []
    else [text (if self.nodes4 = [] then "" else ","), text "n6:",
      .ok (bracketed (self.nodes6.map (·.toString P)))]) ++
  (if self.token = 0 then [] else [text ",tok:", .ok (num self.token.toInt)]) ++
  rest ++ [text "\x7d"]

/-- The fields of the owner of a value, in `StoreValueRequest::toString` and
`FindValueResponse::_toString`. -/
def ValueFields.ownerPieces (self : ValueFields) : Pieces :=
  match self.publicKey with
  | none => []
  | some k =>
    [text ",k:", .ok (P.id k)] ++
    (match self.recipient with
      | some r => [text ",rec:", .ok (P.id r)]
      | none => []) ++
    [text ",n:", do Hex.encode B (← valueOr self.nonce).data] ++
    (if 0 ≤ self.sequenceNumber then [text ",seq:", .ok (num self.sequenceNumber.toInt)] else []) ++
    [text ",sig:", do Hex.encode B (← valueOr self.signature)]

/-- `StoreValueRequest::toString`. -/
def StoreValueRequest.pieces (self : StoreValueRequest) : Pieces :=
  [text ",q:\x7b"] ++ self.ownerPieces P B ++
  (if self.publicKey.isSome then
    (if 0 ≤ self.expectedSequenceNumber then [text ",cas:",
      .ok (num self.expectedSequenceNumber.toInt)]
      else []) ++ [text ","]
    else []) ++
  [text "tok:", .ok (num self.token.toInt), text ",v:", Hex.encode B self.value, text "\x7d"]

/-- `AnnouncePeerRequest::toString`. -/
def AnnouncePeerRequest.pieces (self : AnnouncePeerRequest) : Pieces :=
  [text ",q:\x7b", text "t:", .ok (P.id self.peerId)] ++
  (match self.nodeId with
    | some n => [text ",n:", .ok (P.id n)]
    | none => []) ++
  [text ",p:", .ok (num self.port.toNat)] ++
  (if self.alternativeURL = [] then [] else [text ",alt:", .ok self.alternativeURL]) ++
  [text ",sig:", Hex.encode B self.signature, text ",tok:", .ok (num self.token.toInt), text "\x7d"]

/-- `toString(std::stringstream&)` of the subclasses. -/
def Content.pieces : Content → Pieces
  | errorMessage _ code message =>
    [text ",e:\x7bc:", .ok (num code.toInt), text ".m:'", .ok message, text "'\x7d"]
  | pingRequest | pingResponse | announcePeerResponse | storeValueResponse => []
  | findNodeRequest q | findPeerRequest q => q.pieces P []
  | findValueRequest q seq =>
    q.pieces P (if 0 ≤ seq then [text ",seq:", .ok (num seq.toInt)] else [])
  | announcePeerRequest q => q.pieces P B
  | storeValueRequest q => q.pieces P B
  | findNodeResponse r => r.pieces P []
  | findPeerResponse r peers =>
    r.pieces P (if peers = [] then [] else [text ",p:", .ok (bracketed (peers.map (·.toString P)))])
  | findValueResponse r v =>
    r.pieces P (v.ownerPieces P B ++ if v.value = [] then
      [] else [text ",v:", Hex.encode B v.value])

/-- `Method::toString`. -/
def Method.toString : Method → String
  | unknown => "unknown"
  | ping => "ping"
  | findNode => "find_node"
  | announcePeer => "announce_peer"
  | findPeer => "find_peer"
  | storeValue => "store_value"
  | findValue => "find_value"

/-- `Type::toString`. -/
def MessageType.toString : MessageType → String
  | err => "e"
  | request => "q"
  | response => "r"

/-- `Message::toString`. -/
def Message.toString (self : Message) : Except Fault Text :=
  Pieces.str ([text "y:", text self.getType.toString, text ",m:", text self.getMethod.toString,
    text ",t:", .ok (num self.txid.toInt)] ++ self.content.pieces P B ++
    if self.version = 0 then [] else [text ",v:", .ok (Version.toString self.version)])

end Printing

/-! ## What can be printed -/

/-- Every piece can be written. -/
def Pieces.Sound (pieces : Pieces) : Prop := ∀ p ∈ pieces, ∃ t, p = .ok t

namespace Pieces

variable {ps qs : Pieces}

theorem str_ok_iff : (∃ t, ps.str = .ok t) ↔ ps.Sound := by
  have h : failsAs id ps.str = ps.findSome? (failsAs id) :=
    failsAs_foldlM (P := fun _ => True) (fun _ _ _ => failsAs_map)
      (fun _ _ _ _ _ => trivial) trivial
  have hok : failsAs id ps.str = none ↔ ∃ t, ps.str = .ok t := failsAs_eq_none_iff
  rw [← hok, h, List.findSome?_eq_none_iff]
  simp only [Sound, failsAs_eq_none_iff]

@[simp] theorem sound_nil : Sound [] := by
  intro p hp
  cases hp

@[simp] theorem sound_cons {p : Except Fault Text} : Sound (p :: ps) ↔
    (∃ t, p = .ok t) ∧ ps.Sound :=
  List.forall_mem_cons

@[simp] theorem sound_append : (ps ++ qs).Sound ↔ ps.Sound ∧ qs.Sound := List.forall_mem_append

@[simp] theorem sound_ite {c : Prop} [Decidable c] :
    Sound (if c then ps else qs) ↔ (c → ps.Sound) ∧ (¬ c → qs.Sound) := by
  split_ifs with h <;> simp [h]

end Pieces

@[simp] theorem text_ok (s : String) : ∃ t, text s = .ok t := ⟨_, rfl⟩

theorem encode_ok {B : Build} {data : List UInt8} :
    (∃ t, Hex.encode B data = .ok t) ↔ (B.asserts = true → data ≠ []) := by
  unfold Hex.encode
  split_ifs with h
  · simp [h]
  · exact iff_of_true ⟨_, rfl⟩ fun hB hd => h ⟨hd, hB⟩

/-- The fields of an owner can be printed. -/
def ValueFields.printable (B : Build) (self : ValueFields) : Prop :=
  self.publicKey.isSome = true →
    self.nonce.isSome = true ∧ self.signature.isSome = true ∧
      (B.asserts = true → self.signature ≠ some [])

/-- A message with this content can be printed. -/
def Content.printable (B : Build) : Content → Prop
  | storeValueRequest q => q.printable B ∧ (B.asserts = true → q.value ≠ [])
  | findValueResponse _ v => v.printable B
  | announcePeerRequest q => B.asserts = true → q.signature ≠ []
  | _ => True

section Sound

variable {P : Printer} {B : Build}

theorem nonce_ok (nonce : Option Nonce) :
    (∃ t, (do Hex.encode B (← valueOr nonce).data) = .ok t) ↔ nonce.isSome = true := by
  cases nonce with
  | none => simp [valueOr, Bind.bind, Except.bind]
  | some n =>
    have hn : n.data ≠ [] := by
      intro h
      have := n.size_eq
      simp [h] at this
    exact iff_of_true (encode_ok.mpr fun _ => hn) rfl

theorem signature_ok (signature : Option (List UInt8)) :
    (∃ t, (do Hex.encode B (← valueOr signature)) = .ok t) ↔
      signature.isSome = true ∧ (B.asserts = true → signature ≠ some []) := by
  cases signature with
  | none => simp [valueOr, Bind.bind, Except.bind]
  | some sig =>
    refine encode_ok.trans ?_
    simp

theorem sound_ownerPieces (v : ValueFields) : (v.ownerPieces P B).Sound ↔ v.printable B := by
  unfold ValueFields.ownerPieces ValueFields.printable
  cases v.publicKey with
  | none => simp
  | some k =>
    have hrec : Pieces.Sound (match v.recipient with
        | some r => [text ",rec:", .ok (P.id r)]
        | none => []) := by
      cases v.recipient <;> simp
    simp [hrec, nonce_ok, signature_ok]

theorem sound_lookupResponse (r : LookupResponse) (rest : Pieces) :
    (r.pieces P rest).Sound ↔ rest.Sound := by
  simp [LookupResponse.pieces]

theorem sound_pieces (c : Content) : (c.pieces P B).Sound ↔ c.printable B := by
  cases c with
  | storeValueRequest q =>
    simp [Content.pieces, Content.printable, StoreValueRequest.pieces, sound_ownerPieces, encode_ok]
  | findValueResponse r v =>
    have hvalue :
        (if v.value = [] then [] else [text ",v:", Hex.encode B v.value] : Pieces).Sound := by
      simp only [Pieces.sound_ite, Pieces.sound_nil, Pieces.sound_cons, text_ok, encode_ok]
      exact ⟨fun _ => trivial, fun h => ⟨trivial, fun _ => h, trivial⟩⟩
    simp [Content.pieces, Content.printable, sound_lookupResponse, sound_ownerPieces, hvalue]
  | announcePeerRequest q =>
    have hnode : Pieces.Sound (match q.nodeId with
        | some n => [text ",n:", .ok (P.id n)]
        | none => []) := by
      cases q.nodeId <;> simp
    simp [Content.pieces, Content.printable, AnnouncePeerRequest.pieces, hnode, encode_ok]
  | _ => simp [Content.pieces, Content.printable, LookupRequest.pieces, sound_lookupResponse]

/-- Which messages can be printed. -/
theorem toString_ok_iff (m : Message) : (∃ t, m.toString P B = .ok t) ↔ m.content.printable B := by
  unfold Message.toString
  rw [Pieces.str_ok_iff]
  simp [sound_pieces]

end Sound

/-! ## The same, seen in the JSON -/

/-- The value of a key: the last one, if an object had several. -/
def lastField (body : List (Text × Json)) (key : Text) : Option Json :=
  (body.filter fun f => f.1 = key).getLast?.map (·.2)

/-- The bytes of a blob. -/
def Json.bytes : Json → List UInt8
  | bin b => b
  | _ => []

/-- The bytes of the value of a key; none if it is absent. -/
def bytesOf (body : List (Text × Json)) (key : Text) : List UInt8 :=
  ((lastField body key).map Json.bytes).getD []

/-- The body has an owner `k`, and with it a nonce and a signature (which is not empty, where
assertions are on). -/
def hasOwnerFields (B : Build) (body : List (Text × Json)) : Prop :=
  (lastField body KEY_REQ_PUBLICKEY).isSome = true →
    (lastField body KEY_REQ_NONCE).isSome = true ∧
      (lastField body KEY_REQ_SIGNATURE).isSome = true ∧
      (B.asserts = true → bytesOf body KEY_REQ_SIGNATURE ≠ [])

/-- A message of the subclass of `c` with this body can be printed. -/
def Content.printableBody (B : Build) (c : Content) (body : List (Text × Json)) : Prop :=
  match c with
  | storeValueRequest _ =>
    hasOwnerFields B body ∧ (B.asserts = true → bytesOf body KEY_RES_VALUE ≠ [])
  | findValueResponse .. => hasOwnerFields B body
  | announcePeerRequest _ => B.asserts = true → bytesOf body KEY_REQ_SIGNATURE ≠ []
  | _ => True

/-- What printing sees of the fields of a value. -/
structure Printed where
  owner : Bool := false
  nonce : Bool := false
  signature : Option (List UInt8) := none
  value : List UInt8 := []

/-- What printing sees of the fields of a value. -/
def ValueFields.printed (self : ValueFields) : Printed :=
  ⟨self.publicKey.isSome, self.nonce.isSome, self.signature, self.value⟩

/-- What a field sets of it. -/
def Printed.set (self : Printed) (key : Text) (value : Json) : Printed :=
  { owner := if key = KEY_REQ_PUBLICKEY then true else self.owner
    nonce := if key = KEY_REQ_NONCE then true else self.nonce
    signature := if key = KEY_REQ_SIGNATURE then some value.bytes else self.signature
    value := if key = KEY_RES_VALUE then value.bytes else self.value }

theorem getBinary_eq_ok {j : Json} {b : List UInt8} (h : j.getBinary = .ok b) : j.bytes = b := by
  cases j <;> cases h
  rfl

section ValueFields

variable {B : Build} {seqOf : Json → Except Fault Int32} {v v' : ValueFields} {key : Text}
    {value : Json}

theorem parseField_printed (h : v.parseField B seqOf key value = some (.ok v')) :
    v'.printed = v.printed.set key value := by
  unfold ValueFields.parseField at h
  split_ifs at h with hk hr hn hs hq hv
  all_goals
    obtain ⟨a, ha, rfl⟩ := map_eq_ok_iff.mp (Option.some.inj h)
    subst key
  · rfl
  · rfl
  · rfl
  · rw [← getBinary_eq_ok ha]
    rfl
  · rfl
  · rw [← getBinary_eq_ok ha]
    rfl

theorem set_of_parseField_none (h : v.parseField B seqOf key value = none) (p : Printed) :
    p.set key value = p := by
  unfold ValueFields.parseField at h
  split_ifs at h with hk hr hn hs hq hv
  simp [Printed.set, hk, hn, hs, hv]

end ValueFields

/-- What printing sees of the fields of a value, in the JSON. -/
def Printed.ofBody (body : List (Text × Json)) : Printed where
  owner := (lastField body KEY_REQ_PUBLICKEY).isSome
  nonce := (lastField body KEY_REQ_NONCE).isSome
  signature := (lastField body KEY_REQ_SIGNATURE).map Json.bytes
  value := bytesOf body KEY_RES_VALUE

section Body

variable {C : Crypto} {B : Build} {body : List (Text × Json)} {c c' : Content}

/-- The last field of a key decides. -/
theorem fold_printed {P : Content → Prop} {g : Content → Printed}
    (hP : ∀ c (f : Text × Json) c', c.parseField C B f.1 f.2 = .ok c' → P c → P c')
    (hg : ∀ c (f : Text × Json) c', P c → c.parseField C B f.1 f.2 = .ok c' →
      g c' = (g c).set f.1 f.2)
    (h : body.foldlM (fun c f => c.parseField C B f.1 f.2) c = .ok c') (hc : P c) (h0 : g c = {}) :
    g c' = Printed.ofBody body := by
  have last {γ : Type} (proj : Printed → γ) (key : Text) (set : Text × Json → γ)
      (hset : ∀ p (f : Text × Json), proj (p.set f.1 f.2) = if f.1 = key then set f else proj p) :
      proj (g c') = ((body.filter fun f => f.1 = key).getLast?.map set).getD (proj {}) := by
    rw [← h0]
    refine foldlM_last (fun c => proj (g c))
      (fun f => f.1 = key) set hP (fun c f c' hc hf => ?_) h hc
    simp only [hg c f c' hc hf, hset, decide_eq_true_eq]
  have howner := last (·.owner) KEY_REQ_PUBLICKEY (fun _ => true) fun _ _ => rfl
  have hnonce := last (·.nonce) KEY_REQ_NONCE (fun _ => true) fun _ _ => rfl
  have hsig := last (·.signature) KEY_REQ_SIGNATURE (fun f => some f.2.bytes) fun _ _ => rfl
  have hvalue := last (·.value) KEY_RES_VALUE (fun f => f.2.bytes) fun _ _ => rfl
  have heta : g c' = ⟨(g c').owner, (g c').nonce, (g c').signature, (g c').value⟩ := rfl
  have hbool (o : Option (Text × Json)) : (o.map fun _ => true).getD false =
      (o.map (·.2)).isSome := by
    cases o <;> rfl
  have hopt (o : Option (Text × Json)) :
      (o.map fun f => some f.2.bytes).getD none = (o.map (·.2)).map Json.bytes := by
    cases o <;> rfl
  rw [heta, howner, hnonce, hsig, hvalue, hbool, hbool, hopt]
  simp only [Printed.ofBody, bytesOf, lastField, Option.map_map]
  rfl

/-- Whether a content with the fields of a value can be printed is seen in its body. -/
theorem printable_iff_ofBody {v : ValueFields} (h : v.printed = Printed.ofBody body) :
    v.printable B ↔ hasOwnerFields B body := by
  have howner : v.publicKey.isSome = _ := congrArg Printed.owner h
  have hnonce : v.nonce.isSome = _ := congrArg Printed.nonce h
  have hsig : v.signature = _ := congrArg Printed.signature h
  unfold ValueFields.printable hasOwnerFields
  rw [howner, hnonce, hsig]
  simp only [Printed.ofBody, Option.isSome_map, bytesOf]
  refine imp_congr_right fun _ => and_congr_right fun _ => and_congr_right fun hs => ?_
  obtain ⟨j, hj⟩ := Option.isSome_iff_exists.mp hs
  simp [hj]

/-- What printing sees of a content that has the fields of a value. -/
def Content.printed : Content → Printed
  | storeValueRequest q => q.printed
  | findValueResponse _ v => v.printed
  | _ => {}

theorem storeValue_field {q q' : StoreValueRequest} {key : Text} {value : Json}
    (h : q.parseField B key value = .ok q') : q'.printed = q.printed.set key value := by
  unfold StoreValueRequest.parseField at h
  split at h
  · next r hr =>
    obtain ⟨v, rfl, rfl⟩ := map_eq_ok_iff.mp h
    exact parseField_printed hr
  · next hn =>
    rw [set_of_parseField_none hn]
    split_ifs at h
    all_goals
      obtain ⟨a, -, rfl⟩ := map_eq_ok_iff.mp h
      rfl

theorem findValue_field {r : LookupResponse} {v : ValueFields} {key : Text} {value : Json}
    (h : (Content.findValueResponse r v).parseField C B key value = .ok c') :
    ∃ r' v', c' = .findValueResponse r' v' ∧ v'.printed = v.printed.set key value := by
  simp only [Content.parseField] at h
  split at h
  · next x hx =>
    obtain ⟨r', -, rfl⟩ := map_eq_ok_iff.mp h
    refine ⟨r', v, rfl, ?_⟩
    unfold LookupResponse.parseField at hx
    split_ifs at hx <;> subst key <;> rfl
  · obtain ⟨v', hv, rfl⟩ := map_eq_ok_iff.mp h
    refine ⟨r, v', rfl, ?_⟩
    cases ho : v.parseField B Json.getInt key value with
    | none =>
      rw [ho] at hv
      cases hv
    | some x =>
      rw [ho] at hv
      have hx : x = .ok v' := hv
      subst hx
      exact parseField_printed ho

theorem announcePeer_field {q q' : AnnouncePeerRequest} {key : Text} {value : Json}
    (h : q.parseField key value = .ok q') :
    q'.signature = if key = KEY_REQ_SIGNATURE then value.bytes else q.signature := by
  unfold AnnouncePeerRequest.parseField at h
  split_ifs at h
  all_goals
    obtain ⟨a, ha, rfl⟩ := map_eq_ok_iff.mp h
    subst key
  all_goals first | rfl | exact (getBinary_eq_ok ha).symm

theorem storeValue_printable {q : StoreValueRequest} (h0 : q.printed = {})
    (h : body.foldlM (fun c f => Content.parseField C B c f.1 f.2)
      (.storeValueRequest q) = .ok c') :
    c'.printable B ↔ (Content.storeValueRequest q).printableBody B body := by
  have hP (c : Content) (f : Text × Json) (c' : Content) (hf : c.parseField C B f.1 f.2 = .ok c')
      (hc : ∃ q, c = .storeValueRequest q) : ∃ q, c' = .storeValueRequest q := by
    obtain ⟨q, rfl⟩ := hc
    obtain ⟨q', -, rfl⟩ := map_eq_ok_iff.mp hf
    exact ⟨q', rfl⟩
  have hprinted := fold_printed (g := Content.printed) hP (fun c f c' hc hf => by
    obtain ⟨q, rfl⟩ := hc
    obtain ⟨q', hq, rfl⟩ := map_eq_ok_iff.mp hf
    exact storeValue_field hq) h ⟨q, rfl⟩ h0
  obtain ⟨q', rfl⟩ := foldlM_keeps hP h ⟨q, rfl⟩
  have hvalue : q'.value = _ := congrArg Printed.value hprinted
  refine and_congr (printable_iff_ofBody hprinted) ?_
  rw [hvalue]
  rfl

theorem findValue_printable {r : LookupResponse} {v : ValueFields} (h0 : v.printed = {})
    (h : body.foldlM (fun c f => Content.parseField C B c f.1 f.2)
      (.findValueResponse r v) = .ok c') :
    c'.printable B ↔ (Content.findValueResponse r v).printableBody B body := by
  have hP (c : Content) (f : Text × Json) (c' : Content) (hf : c.parseField C B f.1 f.2 = .ok c')
      (hc : ∃ r v, c = .findValueResponse r v) : ∃ r v, c' = .findValueResponse r v := by
    obtain ⟨r, v, rfl⟩ := hc
    obtain ⟨r', v', rfl, -⟩ := findValue_field hf
    exact ⟨r', v', rfl⟩
  have hprinted := fold_printed (g := Content.printed) hP (fun c f c' hc hf => by
    obtain ⟨r, v, rfl⟩ := hc
    obtain ⟨r', v', rfl, hv⟩ := findValue_field hf
    exact hv) h ⟨r, v, rfl⟩ h0
  obtain ⟨r', v', rfl⟩ := foldlM_keeps hP h ⟨r, v, rfl⟩
  exact printable_iff_ofBody hprinted

theorem announcePeer_printable {q : AnnouncePeerRequest} (h0 : q.signature = [])
    (h : body.foldlM (fun c f => Content.parseField C B c f.1 f.2)
      (.announcePeerRequest q) = .ok c') :
    c'.printable B ↔ (Content.announcePeerRequest q).printableBody B body := by
  let signature : Content → List UInt8
    | .announcePeerRequest q => q.signature
    | _ => []
  have hP (c : Content) (f : Text × Json) (c' : Content) (hf : c.parseField C B f.1 f.2 = .ok c')
      (hc : ∃ q, c = .announcePeerRequest q) : ∃ q, c' = .announcePeerRequest q := by
    obtain ⟨q, rfl⟩ := hc
    obtain ⟨q', -, rfl⟩ := map_eq_ok_iff.mp hf
    exact ⟨q', rfl⟩
  have hlast := foldlM_last signature (fun f => f.1 = KEY_REQ_SIGNATURE) (fun f => f.2.bytes) hP
    (fun c f c' hc hf => by
      obtain ⟨q, rfl⟩ := hc
      obtain ⟨q', hq, rfl⟩ := map_eq_ok_iff.mp hf
      simpa using announcePeer_field hq) h ⟨q, rfl⟩
  obtain ⟨q', rfl⟩ := foldlM_keeps hP h ⟨q, rfl⟩
  have hsig : q'.signature = bytesOf body KEY_REQ_SIGNATURE := by
    refine hlast.trans ?_
    simp only [bytesOf, lastField, Option.map_map, signature, h0]
    rfl
  unfold Content.printable Content.printableBody
  simp only [hsig]

end Body

namespace Message

variable {C : Crypto} {B : Build} {stray : Stray} {m : Message}

/-- A message with this JSON can be printed, if it can be parsed. -/
def PrintableJson (B : Build) (stray : Stray) : Json → Prop
  | .obj fields => ∀ m, create stray fields = .ok m → m.content.printableBody B (bodyFields fields)
  | _ => True

/-- A new message has no fields to print. -/
theorem create_printed {fields : List (Text × Json)} (h : create stray fields = .ok m) :
    m.content.printed = {} ∧ ∀ q, m.content = .announcePeerRequest q → q.signature = [] := by
  unfold create at h
  split at h
  · cases h
  · next type _ =>
    cases hn : type.getNumber with
    | error e =>
      rw [hn] at h
      cases h
    | ok n =>
      rw [hn] at h
      obtain ⟨c, hc, rfl⟩ := map_eq_ok_iff.mp h
      unfold createMessage at hc
      cases ht : MessageType.valueOf (UInt8.ofInt n) with
      | error e =>
        rw [ht] at hc
        cases hc
      | ok type =>
        cases hm : Method.valueOf (UInt8.ofInt n) with
        | error e =>
          rw [ht, hm] at hc
          cases hc
        | ok method =>
          rw [ht, hm] at hc
          cases type <;> cases method <;> cases hc <;>
            exact ⟨rfl, fun q hq => by cases hq <;> rfl⟩

theorem loop_printable {m₀ : Message} {fields : List (Text × Json)}
    (h : fields.foldlM (parseField C B) m₀ = .ok m)
    (hnew : m₀.content.printed = {} ∧ ∀ q, m₀.content = .announcePeerRequest q → q.signature = []) :
    m.content.printable B ↔ m₀.content.printableBody B (bodyFields fields) := by
  have halike : m₀.content.Alike m.content :=
    foldlM_keeps (P := fun m' => m₀.content.Alike m'.content)
      (fun _ _ _ hf hm => hm.trans (field_alike hf)) h (.refl _)
  have hfold := fun hbody => parse_content (m := m₀) hbody h
  obtain ⟨hprinted, hannounce⟩ := hnew
  cases hc : m₀.content with
  | storeValueRequest q =>
    rw [hc] at hfold hprinted
    exact storeValue_printable hprinted (hfold (Option.some_ne_none _))
  | findValueResponse r v =>
    rw [hc] at hfold hprinted
    exact findValue_printable hprinted (hfold (Option.some_ne_none _))
  | announcePeerRequest q =>
    rw [hc] at hfold
    exact announcePeer_printable (hannounce q hc) (hfold (Option.some_ne_none _))
  | _ =>
    have hidx := halike.ctorIdx
    rw [hc] at hidx
    cases hm : m.content <;> rw [hm] at hidx <;> first | exact Iff.rfl | cases hidx

/-- Whether a message that was parsed can be printed is seen in its JSON. -/
theorem parse_printable {root : Json} (h : parse C B stray root = .ok m) :
    m.content.printable B ↔ PrintableJson B stray root := by
  cases root with
  | obj fields =>
    simp only [parse] at h
    cases hc : create stray fields with
    | error e =>
      rw [hc] at h
      cases h
    | ok m₀ =>
      rw [hc] at h
      have hjson : PrintableJson B stray (.obj fields) ↔
          m₀.content.printableBody B (bodyFields fields) := by
        simp [PrintableJson, hc]
      rw [hjson]
      exact loop_printable h (create_printed hc)
  | _ => cases h

end Message

end Boson
