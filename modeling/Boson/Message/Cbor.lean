import Boson.Lib.Cbor
import Boson.Message.Serialize
import Mathlib.Algebra.Order.BigOperators.Group.List
import Mathlib.Algebra.Order.Group.Nat

/-!
# Messages in CBOR (`nlohmann::json::to_cbor`)

The JSON object of a message is written in CBOR, every number in its shortest form.

* `Json.size`: the size of the encoding, and bounds of it for the values that messages have
  (`Json.size_nodes`, `Json.fieldSize_le`).
* `encodes_serialize`: every message that is written can be encoded: it holds no floating-point
  number.
-/

namespace Boson

open Cbor FoldM

/-! ## The encoding -/

mutual

/-- `nlohmann::json::to_cbor`. The digits of a floating-point number are not modelled; no message is
written with one. -/
def Json.toCbor : Json → Option (List UInt8)
  | .null => some [0xf6]
  | .bool b => some [if b then 0xf5 else 0xf4]
  | .int i => some (if 0 ≤ i then head 0 i.toNat else head 1 (-1 - i).toNat)
  | .float _ => none
  | .str s => some (head 3 s.length ++ s)
  | .bin b => some (head 2 b.length ++ b)
  | .arr items => (head 4 items.length ++ ·) <$> Json.itemsToCbor items
  | .obj fields => (head 5 fields.length ++ ·) <$> Json.fieldsToCbor fields

/-- The items of an array. -/
def Json.itemsToCbor : List Json → Option (List UInt8)
  | [] => some []
  | j :: items => do
    let item ← j.toCbor
    let rest ← Json.itemsToCbor items
    return item ++ rest

/-- The fields of an object. -/
def Json.fieldsToCbor : List (Text × Json) → Option (List UInt8)
  | [] => some []
  | (key, j) :: fields => do
    let item ← j.toCbor
    let rest ← Json.fieldsToCbor fields
    return head 3 key.length ++ key ++ item ++ rest

end

mutual

/-- The size of the encoding. -/
def Json.size : Json → Nat
  | .null => 1
  | .bool _ => 1
  | .int i => headSize (if 0 ≤ i then i.toNat else (-1 - i).toNat)
  | .float _ => 9
  | .str s => headSize s.length + s.length
  | .bin b => headSize b.length + b.length
  | .arr items => headSize items.length + Json.itemsSize items
  | .obj fields => headSize fields.length + Json.fieldsSize fields

def Json.itemsSize : List Json → Nat
  | [] => 0
  | j :: items => j.size + Json.itemsSize items

def Json.fieldsSize : List (Text × Json) → Nat
  | [] => 0
  | (key, j) :: fields => headSize key.length + key.length + j.size + Json.fieldsSize fields

end

mutual

theorem Json.length_toCbor : ∀ (j : Json) (b : List UInt8), j.toCbor = some b → b.length = j.size
  | .null, b, h => by cases h; rfl
  | .bool _, b, h => by cases h; rfl
  | .int i, b, h => by
    cases h
    rw [Json.size]
    split <;> exact length_head _ _
  | .float _, b, h => by cases h
  | .str s, b, h => by
    cases h
    rw [List.length_append, length_head, Json.size]
  | .bin s, b, h => by
    cases h
    rw [List.length_append, length_head, Json.size]
  | .arr items, b, h => by
    obtain ⟨rest, hrest, rfl⟩ := Option.map_eq_some_iff.mp h
    rw [List.length_append, length_head, Json.length_itemsToCbor items rest hrest, Json.size]
  | .obj fields, b, h => by
    obtain ⟨rest, hrest, rfl⟩ := Option.map_eq_some_iff.mp h
    rw [List.length_append, length_head, Json.length_fieldsToCbor fields rest hrest, Json.size]

theorem Json.length_itemsToCbor :
    ∀ (items : List Json) (b : List UInt8), Json.itemsToCbor items = some b →
      b.length = Json.itemsSize items
  | [], b, h => by cases h; rfl
  | j :: items, b, h => by
    obtain ⟨item, hitem, h⟩ := Option.bind_eq_some_iff.mp h
    obtain ⟨rest, hrest, h⟩ := Option.bind_eq_some_iff.mp h
    cases h
    rw [List.length_append, Json.length_toCbor j item hitem,
      Json.length_itemsToCbor items rest hrest, Json.itemsSize]

theorem Json.length_fieldsToCbor :
    ∀ (fields : List (Text × Json)) (b : List UInt8), Json.fieldsToCbor fields = some b →
      b.length = Json.fieldsSize fields
  | [], b, h => by cases h; rfl
  | (key, j) :: fields, b, h => by
    obtain ⟨item, hitem, h⟩ := Option.bind_eq_some_iff.mp h
    obtain ⟨rest, hrest, h⟩ := Option.bind_eq_some_iff.mp h
    cases h
    rw [List.length_append, List.length_append, List.length_append, length_head,
      Json.length_toCbor j item hitem, Json.length_fieldsToCbor fields rest hrest, Json.fieldsSize]

end

/-! ## The size of a field -/

namespace Json

variable {j : Json} {key : Text} {o : Option Json} {k n : Nat}

theorem itemsSize_eq (items : List Json) : itemsSize items = (items.map size).sum := by
  induction items with
  | nil => rfl
  | cons j items ih => rw [itemsSize, ih, List.map_cons, List.sum_cons]

/-- The size of a field that may be left out. -/
def fieldSize (f : Text × Option Json) : Nat :=
  f.2.elim 0 fun j => headSize f.1.length + f.1.length + j.size

theorem fieldsSize_filterMap (fields : List (Text × Option Json)) :
    fieldsSize (fields.filterMap fun f => f.2.map (f.1, ·)) = (fields.map fieldSize).sum := by
  induction fields with
  | nil => rfl
  | cons f fields ih =>
    obtain ⟨key, o⟩ := f
    cases o with
    | none => simpa [fieldSize] using ih
    | some j => simp [fieldSize, fieldsSize, ih]

/-- The size of an object does not depend on the order of its fields. -/
theorem size_object_le {fields : List (Text × Option Json)} (h : fields.length < 24) :
    (object fields).size ≤ 1 + (fields.map fieldSize).sum := by
  have hperm := List.perm_insertionSort (fun a b : Text × Option Json => a.1 ≤ b.1) fields
  have hcount := List.length_filterMap_le (fun f : Text × Option Json => f.2.map (f.1, ·))
    (fields.insertionSort fun a b => a.1 ≤ b.1)
  rw [hperm.length_eq] at hcount
  rw [object, size, fieldsSize_filterMap, (hperm.map fieldSize).sum_nat, headSize_eq_one (by omega)]

@[simp] theorem fieldSize_none (key : Text) : fieldSize (key, none) = 0 := rfl

theorem fieldSize_le (key : Text) (hkey : key.length = k) (hk : k < 24)
    (h : ∀ j, o = some j → j.size ≤ n) :
    fieldSize (key, o) ≤ 1 + k + n := by
  cases o with
  | none => exact Nat.zero_le _
  | some j =>
    have := h j rfl
    simp only [fieldSize, Option.elim_some, hkey, headSize_eq_one hk]
    omega

theorem size_id (id : Id) : id.toJson.size = 34 := by
  rw [Id.toJson, size, id.size_eq]
  rfl

theorem size_int32 (i : Int32) : (int i.toInt).size ≤ 5 := by
  have h1 := i.le_toInt
  have h2 := i.toInt_lt
  rw [size]
  apply headSize_le_five
  split <;> omega

theorem size_port (port : UInt16) : (int port.toNat).size ≤ 3 := by
  have h := port.toNat_lt
  rw [size, if_pos (Int.natCast_nonneg _), Int.toNat_natCast]
  exact headSize_le_three h

theorem size_str {s : Text} (h : s.length < 65536) : (str s).size ≤ 3 + s.length := by
  have := headSize_le_three h
  rw [size]
  omega

theorem size_bin {b : List UInt8} (h : b.length < 65536) : (bin b).size ≤ 3 + b.length := by
  have := headSize_le_three h
  rw [size]
  omega

theorem size_signature {b : List UInt8} (h : b.length ≤ SIGNATURE_BYTES) :
    (bin b).size ≤ 2 + SIGNATURE_BYTES := by
  have := headSize_le_two (n := b.length) (by simp only [SIGNATURE_BYTES] at h; omega)
  rw [size]
  omega

theorem size_seqField {i : Int32} (h : seqField i = some j) : j.size ≤ 5 := by
  unfold seqField at h
  split at h
  · cases h
    exact size_int32 i
  · cases h

theorem inaddr_length_le_sixteen (a : SocketAddress) : a.inaddr.length ≤ 16 := by
  cases a with
  | empty => exact Nat.zero_le _
  | inet ip port => exact ip.size_eq.trans_le (by decide)
  | inet6 ip port _ _ => exact ip.size_eq.le

theorem size_row (x : NodeInfo) : x.toJson.size ≤ 39 + x.sockaddr.inaddr.length := by
  have hip := inaddr_length_le_sixteen x.sockaddr
  have hport := size_port x.sockaddr.port
  have hbin : (bin x.sockaddr.inaddr).size = 1 + x.sockaddr.inaddr.length := by
    rw [size, headSize_eq_one (by omega)]
  rw [NodeInfo.toJson, size, itemsSize_eq]
  simp only [List.map_cons, List.map_nil, List.sum_cons, List.sum_nil, size_id, hbin,
    List.length_cons, List.length_nil]
  have : headSize (0 + 1 + 1 + 1) = 1 := rfl
  omega

theorem sum_map_le {α : Type} {l : List α} {f : α → Nat} (h : ∀ x ∈ l, f x ≤ n) :
    (l.map f).sum ≤ n * l.length := by
  have := List.sum_le_card_nsmul (l.map f) n fun y hy => by
    obtain ⟨x, hx, rfl⟩ := List.mem_map.mp hy
    exact h x hx
  simpa [Nat.mul_comm] using this

theorem fieldSize_some_le (key : Text) (hkey : key.length = k) (hk : k < 24) (h : j.size ≤ n) :
    fieldSize (key, some j) ≤ 1 + k + n :=
  fieldSize_le key hkey hk fun _ hj => Option.some.inj hj ▸ h

theorem fieldSize_id (key : Text) (hkey : key.length = k) (hk : k < 24) (id : Option Id) :
    fieldSize (key, id.map (·.toJson)) ≤ 1 + k + 34 :=
  fieldSize_le key hkey hk fun j hj => by
    obtain ⟨x, -, rfl⟩ := Option.map_eq_some_iff.mp hj
    exact (size_id x).le

theorem fieldSize_seq (key : Text) (hkey : key.length = k) (hk : k < 24) (i : Int32) :
    fieldSize (key, seqField i) ≤ 1 + k + 5 :=
  fieldSize_le key hkey hk fun _ hj => size_seqField hj

/-- A list of nodes with addresses of at most `n` bytes. -/
theorem size_nodes {nodes : List NodeInfo} (hlen : nodes.length ≤ 8)
    (hip : ∀ x ∈ nodes, x.sockaddr.inaddr.length ≤ n) (h : serializeNodes nodes = some j) :
    j.size ≤ 1 + (39 + n) * nodes.length := by
  unfold serializeNodes at h
  split at h
  · cases h
    rw [size, List.length_map, headSize_eq_one (by omega), itemsSize_eq, List.map_map]
    refine Nat.add_le_add_left (sum_map_le fun x hx => ?_) 1
    exact (size_row x).trans (Nat.add_le_add_left (hip x hx) 39)
  · cases h

end Json

/-- There is an encoding. -/
def Json.Encodes (j : Json) : Prop := ∃ bytes, j.toCbor = some bytes

namespace Json

variable {j : Json} {key : Text} {o : Option Json}

/-! ## What can be encoded -/

theorem encodes_null : null.Encodes := ⟨_, rfl⟩

theorem encodes_int (i : Int) : (int i).Encodes := ⟨_, rfl⟩

theorem encodes_str (s : Text) : (str s).Encodes := ⟨_, rfl⟩

theorem encodes_bin (b : List UInt8) : (bin b).Encodes := ⟨_, rfl⟩

theorem encodes_seqField {i : Int32} (h : seqField i = some j) : j.Encodes := by
  unfold seqField at h
  split at h
  · cases h
    exact encodes_int _
  · cases h

theorem encodes_arr {items : List Json} (h : ∀ j ∈ items, j.Encodes) : (arr items).Encodes := by
  have hitems : ∃ bytes, itemsToCbor items = some bytes := by
    induction items with
    | nil => exact ⟨_, rfl⟩
    | cons j items ih =>
      obtain ⟨item, hitem⟩ := h j List.mem_cons_self
      obtain ⟨rest, hrest⟩ := ih fun j hj => h j (List.mem_cons_of_mem _ hj)
      exact ⟨item ++ rest, by rw [itemsToCbor, hitem, hrest]; rfl⟩
  obtain ⟨bytes, hbytes⟩ := hitems
  exact ⟨head 4 items.length ++ bytes, by rw [toCbor, hbytes]; rfl⟩

theorem encodes_obj {fields : List (Text × Json)} (h : ∀ f ∈ fields, f.2.Encodes) :
    (obj fields).Encodes := by
  have hfields : ∃ bytes, fieldsToCbor fields = some bytes := by
    induction fields with
    | nil => exact ⟨_, rfl⟩
    | cons f fields ih =>
      obtain ⟨key, j⟩ := f
      obtain ⟨item, hitem⟩ := h (key, j) List.mem_cons_self
      obtain ⟨rest, hrest⟩ := ih fun f hf => h f (List.mem_cons_of_mem _ hf)
      exact ⟨head 3 key.length ++ key ++ item ++ rest, by rw [fieldsToCbor, hitem, hrest]; rfl⟩
  obtain ⟨bytes, hbytes⟩ := hfields
  exact ⟨head 5 fields.length ++ bytes, by rw [toCbor, hbytes]; rfl⟩

/-- Every field that is not left out can be encoded. -/
def FieldsEncode (fields : List (Text × Option Json)) : Prop :=
  ∀ f ∈ fields, ∀ j, f.2 = some j → j.Encodes

theorem encodes_object {fields : List (Text × Option Json)} (h : FieldsEncode fields) :
    (object fields).Encodes := by
  refine encodes_obj fun f hf => ?_
  obtain ⟨g, hg, hgf⟩ := List.mem_filterMap.mp hf
  obtain ⟨j, hj, rfl⟩ := Option.map_eq_some_iff.mp hgf
  exact h g ((List.mem_insertionSort _).mp hg) j hj

theorem fieldsEncode_nil : FieldsEncode [] := by
  intro f hf
  cases hf

theorem fieldsEncode_cons {fields : List (Text × Option Json)} (hf : ∀ j, o = some j → j.Encodes)
    (h : FieldsEncode fields) : FieldsEncode ((key, o) :: fields) := by
  intro f hmem
  rcases List.mem_cons.mp hmem with rfl | hmem
  · exact hf
  · exact h f hmem

theorem fieldsEncode_some {fields : List (Text × Option Json)} (hj : j.Encodes)
    (h : FieldsEncode fields) : FieldsEncode ((key, some j) :: fields) :=
  fieldsEncode_cons (fun _ e => Option.some.inj e ▸ hj) h

theorem FieldsEncode.append {fields fields' : List (Text × Option Json)} (h : FieldsEncode fields)
    (h' : FieldsEncode fields') : FieldsEncode (fields ++ fields') := by
  intro f hf
  rcases List.mem_append.mp hf with hf | hf
  · exact h f hf
  · exact h' f hf

theorem encodes_id {id : Option Id} (h : id.map (·.toJson) = some j) : j.Encodes := by
  obtain ⟨x, -, rfl⟩ := Option.map_eq_some_iff.mp h
  exact encodes_bin _

theorem encodes_nodes {nodes : List NodeInfo} (h : serializeNodes nodes = some j) : j.Encodes := by
  unfold serializeNodes at h
  split at h
  · cases h
    refine encodes_arr fun j hj => ?_
    obtain ⟨x, -, rfl⟩ := List.mem_map.mp hj
    refine encodes_arr fun j hj => ?_
    simp only [List.mem_cons, List.not_mem_nil, or_false] at hj
    rcases hj with rfl | rfl | rfl
    · exact encodes_bin _
    · exact encodes_bin _
    · exact encodes_int _
  · cases h

theorem encodes_peers {peers : List PeerInfo} (h : serializePeers peers = some j) : j.Encodes := by
  cases peers with
  | nil => cases h
  | cons peer peers =>
    cases h
    refine encodes_arr fun j hj => ?_
    rcases List.mem_cons.mp hj with rfl | hj
    · exact encodes_bin _
    · obtain ⟨p, -, rfl⟩ := List.mem_map.mp hj
      refine encodes_arr fun j hj => ?_
      simp only [List.mem_cons, List.not_mem_nil, or_false] at hj
      rcases hj with rfl | rfl | rfl | rfl | rfl
      · exact encodes_bin _
      · split
        · exact encodes_bin _
        · exact encodes_null
      · exact encodes_int _
      · cases p.alternativeURL with
        | none => exact encodes_null
        | some url => exact encodes_str url
      · exact encodes_bin _

end Json

open Json

theorem LookupResponse.encodes_fields (r : LookupResponse) : FieldsEncode r.fields := by
  refine fieldsEncode_cons (fun _ => encodes_nodes) (fieldsEncode_cons (fun _ => encodes_nodes)
    (fieldsEncode_cons (fun j hj => ?_) fieldsEncode_nil))
  split at hj
  · cases hj
    exact encodes_int _
  · cases hj

theorem LookupRequest.encodes_fields (q : LookupRequest) : FieldsEncode q.fields :=
  fieldsEncode_some (encodes_bin _) (fieldsEncode_some (encodes_int _) fieldsEncode_nil)

theorem AnnouncePeerRequest.encodes_fields (q : AnnouncePeerRequest) : FieldsEncode q.fields := by
  refine fieldsEncode_some (encodes_int _) (fieldsEncode_some (encodes_bin _)
    (fieldsEncode_some (encodes_int _) (fieldsEncode_some (encodes_bin _)
    (fieldsEncode_cons (fun _ => encodes_id)
      (fieldsEncode_cons (fun j hj => ?_) fieldsEncode_nil)))))
  split at hj
  · cases hj
    exact encodes_str _
  · cases hj

theorem ValueFields.encodes_fields {v : ValueFields} {fields : List (Text × Option Json)}
    (h : v.fields = .ok fields) : FieldsEncode fields := by
  have hvalue : FieldsEncode
      [(KEY_RES_VALUE, if v.value ≠ [] then some (Json.bin v.value) else none)] := by
    refine fieldsEncode_cons (fun j hj => ?_) fieldsEncode_nil
    split at hj
    · cases hj
      exact encodes_bin _
    · cases hj
  unfold ValueFields.fields at h
  cases hk : v.publicKey with
  | none =>
    rw [hk] at h
    cases h
    exact hvalue
  | some publicKey =>
    rw [hk] at h
    obtain ⟨nonce, -, h⟩ := bind_eq_ok_iff.mp h
    obtain ⟨signature, -, h⟩ := bind_eq_ok_iff.mp h
    cases h
    exact fieldsEncode_some (encodes_bin _) (fieldsEncode_cons (fun _ => encodes_id)
      (fieldsEncode_some (encodes_bin _) (fieldsEncode_cons (fun _ => encodes_seqField)
      (fieldsEncode_some (encodes_bin _) hvalue))))

theorem StoreValueRequest.encodes_fields {q : StoreValueRequest}
    {fields : List (Text × Option Json)}
    (h : q.fields = .ok fields) : FieldsEncode fields := by
  have hvalue : FieldsEncode [(KEY_RES_VALUE, some (Json.bin q.value))] :=
    fieldsEncode_some (encodes_bin _) fieldsEncode_nil
  unfold StoreValueRequest.fields at h
  cases hk : q.publicKey with
  | none =>
    rw [hk] at h
    cases h
    exact fieldsEncode_some (encodes_int _) hvalue
  | some publicKey =>
    rw [hk] at h
    obtain ⟨nonce, -, h⟩ := bind_eq_ok_iff.mp h
    obtain ⟨signature, -, h⟩ := bind_eq_ok_iff.mp h
    cases h
    exact fieldsEncode_some (encodes_int _) (fieldsEncode_some (encodes_bin _)
      (fieldsEncode_cons (fun _ => encodes_id) (fieldsEncode_some (encodes_bin _)
      (fieldsEncode_some (encodes_bin _) (fieldsEncode_cons (fun _ => encodes_seqField)
      (fieldsEncode_cons (fun _ => encodes_seqField) hvalue))))))

/-- The body of a message can be encoded. -/
theorem Content.encodes_serialize {c : Content} {j : Json} (h : c.serialize = .ok (some j)) :
    j.Encodes := by
  cases c with
  | pingRequest | pingResponse | announcePeerResponse | storeValueResponse => cases h
  | errorMessage method code message =>
    cases h
    exact encodes_object (fieldsEncode_some (encodes_int _)
      (fieldsEncode_some (encodes_str _) fieldsEncode_nil))
  | findNodeRequest q | findPeerRequest q =>
    cases h
    exact encodes_object q.encodes_fields
  | findValueRequest q sequenceNumber =>
    cases h
    exact encodes_object (q.encodes_fields.append
      (fieldsEncode_cons (fun _ => encodes_seqField) fieldsEncode_nil))
  | announcePeerRequest q =>
    cases h
    exact encodes_object q.encodes_fields
  | storeValueRequest q =>
    obtain ⟨fields, hfields, hj⟩ := map_eq_ok_iff.mp h
    cases hj
    exact encodes_object (StoreValueRequest.encodes_fields hfields)
  | findNodeResponse r =>
    cases h
    exact encodes_object r.encodes_fields
  | findPeerResponse r peers =>
    cases h
    exact encodes_object (r.encodes_fields.append
      (fieldsEncode_cons (fun _ => encodes_peers) fieldsEncode_nil))
  | findValueResponse r v =>
    obtain ⟨fields, hfields, hj⟩ := map_eq_ok_iff.mp h
    cases hj
    exact encodes_object (r.encodes_fields.append (ValueFields.encodes_fields hfields))

theorem Message.encodes_serialize {self : Message} {json : Json} (h : self.serialize = .ok json) :
    json.Encodes := by
  obtain ⟨body, hbody, h⟩ := bind_eq_ok_iff.mp h
  cases h
  refine encodes_object (fieldsEncode_some (encodes_int _) (fieldsEncode_some (encodes_int _)
    (fieldsEncode_some (encodes_int _) (fieldsEncode_cons (fun j hj => ?_) fieldsEncode_nil))))
  subst hj
  exact Content.encodes_serialize hbody

end Boson
