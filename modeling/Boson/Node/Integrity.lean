import Boson.Lib.Runs
import Boson.Message.Parse
import Boson.Node.Storage
import Boson.Node.Tokens
import Mathlib.Data.List.TakeWhile

/-!
# Integrity of the storage

* `values_integrity`: whatever happens, the rows of the table of values are consistent with their
  ids and signed by their owners.
* `peers_authentic_iff`: the peers that the network gets a node to write are signed, exactly if the
  announced ones are: nobody checks these.
-/

namespace Boson

/-! ## Values -/

namespace ValueRow

/-- `Value::getSignData`, from the columns. -/
def signData (self : ValueRow) : List UInt8 :=
  Value.blobOf self.recipient ++ Value.blobOf self.nonce ++ SocketAddress.le32 self.seq.toUInt32 ++
    Value.blobOf self.data

/-- The id of the row belongs to its columns. If it has an owner, it has a nonce and the owner's
signature. -/
def Sound (C : Crypto) (self : ValueRow) : Prop :=
  ∃ publicKey nonce, self.publicKey = publicKey.map Id.bytes ∧ self.nonce = nonce.map Bytes.data ∧
    self.id = Value.calculateId C publicKey nonce (Value.blobOf self.data) ∧
    ∀ pk, publicKey = some pk → nonce.isSome = true ∧
      ∃ sig, self.signature = some sig ∧ C.verify self.signData sig pk = true

end ValueRow

namespace ValueTable

/-- The rows are sound, and a value is found under its own id. -/
structure Integrity (C : Crypto) (T : ValueTable) : Prop where
  sound : ∀ row ∈ T.rows, row.Sound C
  getId : ∀ now id v, T.getValue now id = .ok (some v) → v.getId C = id

variable {C : Crypto} {T : ValueTable} {v : Value}

theorem sound_ofValue (hv : v.isMutable = true → v.isValid C = true) (p : Bool) (ts an : Int) :
    (ValueRow.ofValue C v p ts an).Sound C := by
  cases hpk : v.publicKey with
  | none =>
    refine ⟨none, none, by simp [ValueRow.ofValue, hpk], by
      simp [ValueRow.ofValue, Value.isMutable, hpk],
      ?_, by simp⟩
    simp [ValueRow.ofValue, Value.getId, Value.calculateId, Value.blobOf, hpk]
  | some pk =>
    have hm : v.isMutable = true := by simp [Value.isMutable, hpk]
    obtain ⟨hnonce, ⟨sig, hsig, -⟩, -⟩ := v.mutable_ok (by simp [hpk])
    have hvalid := hv hm
    refine ⟨some pk, v.nonce, by simp [ValueRow.ofValue, hpk], by
      simp [ValueRow.ofValue, hm], ?_, ?_⟩
    · simp [ValueRow.ofValue, Value.getId, Value.blobOf, hpk]
    · intro pk' hpk'
      cases hpk'
      refine ⟨Option.isSome_iff_ne_none.mpr hnonce, sig, hsig, ?_⟩
      have hdata := Value.data_ne_nil_of_isValid hvalid
      rw [Value.isValid, if_neg hdata, hpk, hsig] at hvalid
      rw [← hvalid]
      simp [ValueRow.signData, ValueRow.ofValue, ValueRow.seq, Value.getSignData, Value.blobOf, hm]

theorem Stored.integrity (h : Stored C T) : Integrity C T where
  sound row hrow := by
    obtain ⟨v, p, ts, an, hv, rfl⟩ := h _ row (Table.mem_rows_iff.mp hrow)
    exact sound_ofValue hv p ts an
  getId now id v hget := by
    unfold getValue at hget
    split at hget
    · next row hrow =>
      obtain ⟨hlookup, -⟩ := Option.filter_eq_some_iff.mp hrow
      obtain ⟨w, p, ts, an, -, rfl⟩ := h id row hlookup
      obtain ⟨v', hv', heq⟩ := FoldM.map_eq_ok_iff.mp hget
      cases heq
      have hkey := Table.lookup_key hlookup
      cases eq_of_toValue_ofValue hv'
      exact hkey
    · cases hget

end ValueTable

namespace InUse

open ValueTable (run_append)

variable {C : Crypto} {R : RandomOrder} {s : InUse}

theorem foundValue_values (op : Nat) (found : Option Value.Filled) :
    ∃ ops, (s.foundValue C op found).node.storage.values = s.node.storage.values.run C ops := by
  unfold foundValue
  split
  · exact ⟨[], rfl⟩
  · dsimp only
    split
    · split_ifs
      · exact ⟨[(s.now, .putValue _ (-1) false false)], rfl⟩
      · exact ⟨[], rfl⟩
    · exact ⟨[], rfl⟩

theorem request_values (msg : Message) :
    ∃ ops, (s.request C R msg).node.storage.values = s.node.storage.values.run C ops := by
  unfold request
  split_ifs
  · exact ⟨[], rfl⟩
  · split
    · next node hok =>
      obtain ⟨peer, -, -, hs⟩ | hs | ⟨v, hv, seq, hs⟩ := Node.serve_storage hok
      · exact ⟨[], by rw [hs]; rfl⟩
      · exact ⟨[], by rw [hs]; rfl⟩
      · exact ⟨[(s.now, .putValue v seq false false)], by rw [hs]; rfl⟩
    · exact ⟨[], rfl⟩

/-- To the table of values, everything that happens is a sequence of its operations. -/
theorem step_values (s : InUse) (e : StorageEvent C) :
    ∃ ops, (s.step C R e).node.storage.values = s.node.storage.values.run C ops := by
  cases e with
  | elsewhere => exact ⟨[], rfl⟩
  | request msg => exact request_values msg
  | findValue id option =>
    refine ⟨[], ?_⟩
    change (s.findValue id option).node.storage.values = _
    unfold findValue
    split <;> rfl
  | foundValue op found => exact foundValue_values op found
  | storeValue value persistent =>
    change ∃ ops, (s.storeValue C value persistent).node.storage.values = _
    unfold storeValue
    split_ifs
    · exact ⟨[(s.now, .putValue value (-1) persistent true)], rfl⟩
    · exact ⟨[], rfl⟩
  | removeValue valueId => exact ⟨[(s.now, .removeValue valueId)], rfl⟩
  | updateValueLastAnnounce valueId => exact ⟨[(s.now, .updateValueLastAnnounce valueId)], rfl⟩
  | findPeer id expected option =>
    refine ⟨[], ?_⟩
    change (s.findPeer C R id expected option).node.storage.values = _
    unfold findPeer
    split
    · rfl
    · dsimp only
      split_ifs <;> rfl
  | foundPeers op lookup events _ =>
    refine ⟨[], ?_⟩
    change (s.foundPeers C op lookup events).node.storage.values = _
    unfold foundPeers
    split <;> rfl
  | announcePeer peer persistent _ =>
    refine ⟨[], ?_⟩
    change (s.announcePeer C peer persistent).node.storage.values = _
    unfold announcePeer
    split_ifs <;> rfl
  | removePeer => exact ⟨[], rfl⟩
  | updatePeerLastAnnounce => exact ⟨[], rfl⟩
  | expire => exact ⟨[(s.now, .expire)], rfl⟩

theorem run_values (s : InUse) (events : List (StorageEvent C)) :
    ∃ ops, (s.run C R events).node.storage.values = s.node.storage.values.run C ops := by
  induction events generalizing s with
  | nil => exact ⟨[], rfl⟩
  | cons e events ih =>
    obtain ⟨ops, hstep⟩ := step_values (R := R) s e
    obtain ⟨ops', hrun⟩ := ih (s.step C R e)
    exact ⟨ops ++ ops', by rw [run_append, ← hstep, ← hrun]; rfl⟩

end InUse

/-- The table of values keeps its integrity, under all sequences of its operations and in every run
of a node that starts with an empty storage. -/
theorem values_integrity (C : Crypto) (R : RandomOrder) :
    (∀ ops, (ValueTable.run C Table.empty ops).Integrity C) ∧
      ∀ (node : Node) (events : List (StorageEvent C)),
        (InUse.run C R { node := { node with storage := Storage.empty } }
          events).node.storage.values.Integrity C := by
  have hops (ops : List (Nat × ValueTable.Op)) : (ValueTable.run C Table.empty ops).Integrity C :=
    (ValueTable.run_stored (ValueTable.stored_empty C) ops).integrity
  refine ⟨hops, fun node events => ?_⟩
  obtain ⟨ops, hrun⟩ :=
    InUse.run_values (R := R) { node := { node with storage := Storage.empty } } events
  rw [hrun]
  exact hops ops

/-! ## Peers -/

/-- What the code gets from `utf8NFC`: a normal form, as a text that ends at its first zero byte. -/
structure Crypto.NormalForm (C : Crypto) : Prop where
  idem : ∀ text, C.utf8NFC (C.utf8NFC text) = C.utf8NFC text
  text : ∀ text, 0 ∉ C.utf8NFC text

namespace PeerRow

/-- The row holds a peer whose signature verifies. -/
def Authentic (C : Crypto) (self : PeerRow) : Prop :=
  ∃ peer, self.toPeer C = .ok peer ∧ peer.isValid C = true

variable {C : Crypto} {peer : PeerInfo}

/-- The URL of a peer comes back from the table. An empty one comes back as none. -/
theorem url_ofPeer (hC : C.NormalForm) (h : peer.Normal C) (p : Bool) (ts an : Int) :
    (if (ofPeer peer p ts an).alternativeURL.getD [] = [] then none
      else some (C.utf8NFC ((ofPeer peer p ts an).alternativeURL.getD []))).getD [] =
      peer.alternativeURL.getD [] := by
  unfold ofPeer
  dsimp only
  cases hurl : peer.alternativeURL with
  | none => simp
  | some url =>
    obtain ⟨text, rfl⟩ := h url hurl
    have htake : (C.utf8NFC text).takeWhile (· ≠ 0) = C.utf8NFC text := by
      refine List.takeWhile_eq_self_iff.mpr fun b hb => ?_
      simpa using fun (h0 : b = 0) => hC.text text (h0 ▸ hb)
    simp only [Option.map_some, Option.getD_some, htake]
    split_ifs with hnil
    · rw [hnil]
      rfl
    · rw [hC.idem, Option.getD_some]

/-- What is read from the row of a peer is as valid as the peer. -/
theorem authentic_ofPeer (hC : C.NormalForm) (h : peer.Normal C) (p : Bool) (ts an : Int) :
    (ofPeer peer p ts an).Authentic C ↔ peer.isValid C = true := by
  obtain ⟨read, hread⟩ := toPeer_of_readable C (readable_ofPeer peer p ts an)
  have hmade := PeerInfo.made_of_eq_ok hread
  have hvalid : read.isValid C = peer.isValid C := by
    have hkey : read.publicKey = peer.publicKey := by simpa [ofPeer] using hmade.publicKey.symm
    have hnode : read.nodeId = peer.nodeId := by simpa [ofPeer] using hmade.nodeId.symm
    have horigin : read.origin = peer.origin := by simpa [ofPeer] using hmade.origin
    have hport : read.port = peer.port := hmade.port
    have hsig : read.signature = peer.signature := hmade.signature
    have hurl : read.alternativeURL.getD [] = peer.alternativeURL.getD [] := by
      rw [hmade.alternativeURL]
      exact url_ofPeer hC h p ts an
    unfold PeerInfo.isValid PeerInfo.getSignData
    rw [hkey, hnode, horigin, hport, hsig, hurl]
  rw [Authentic, hread]
  simp [hvalid]

end PeerRow

section Parse

open FoldM

variable {C : Crypto} {B : Build} {stray : Stray}

theorem getPeerInfo_normal {peerId : List UInt8} {items : List Json} {p : PeerInfo}
    (h : getPeerInfo C peerId items = .ok p) : p.Normal C := by
  unfold getPeerInfo at h
  obtain ⟨_, -, h⟩ := bind_eq_ok_iff.mp h
  obtain ⟨id, -, h⟩ := bind_eq_ok_iff.mp h
  obtain ⟨_, -, h⟩ := bind_eq_ok_iff.mp h
  obtain ⟨origin, -, h⟩ := bind_eq_ok_iff.mp h
  obtain ⟨_, -, h⟩ := bind_eq_ok_iff.mp h
  obtain ⟨port, -, h⟩ := bind_eq_ok_iff.mp h
  obtain ⟨_, -, h⟩ := bind_eq_ok_iff.mp h
  obtain ⟨alt, -, h⟩ := bind_eq_ok_iff.mp h
  obtain ⟨_, -, h⟩ := bind_eq_ok_iff.mp h
  obtain ⟨sig, -, h⟩ := bind_eq_ok_iff.mp h
  cases hp : PeerInfo.of C peerId [] id origin port alt sig with
  | error e =>
    rw [hp] at h
    cases h
  | ok p' =>
    rw [hp] at h
    cases h
    exact (PeerInfo.made_of_eq_ok hp).normal

theorem parsePeer_normal {acc acc' : List UInt8 × List PeerInfo} {item : Json}
    (h : parsePeer C acc item = .ok acc') (hacc : ∀ p ∈ acc.2, p.Normal C) :
    ∀ p ∈ acc'.2, p.Normal C := by
  unfold parsePeer at h
  split at h
  · obtain ⟨peer, hpeer, rfl⟩ := map_eq_ok_iff.mp h
    exact List.forall_mem_append.mpr ⟨hacc, by simpa using getPeerInfo_normal hpeer⟩
  · obtain ⟨peerId, -, rfl⟩ := map_eq_ok_iff.mp h
    exact hacc

theorem parsePeers_normal {peers peers' : List PeerInfo} {key : Text} {value : Json}
    (h : parsePeers C peers key value = .ok peers') (hpeers : ∀ p ∈ peers, p.Normal C) :
    ∀ p ∈ peers', p.Normal C := by
  unfold parsePeers at h
  split at h
  · split_ifs at h
    obtain ⟨acc, hacc, rfl⟩ := map_eq_ok_iff.mp h
    exact foldlM_keeps (P := fun acc => ∀ p ∈ acc.2, p.Normal C)
      (fun _ _ _ => parsePeer_normal) hacc hpeers
  · cases h

theorem parseField_normal {c c' : Content} {key : Text} {value : Json}
    (h : c.parseField C B key value = .ok c') (hc : c.Normal C) : c'.Normal C := by
  cases c with
  | findPeerResponse r peers =>
    unfold Content.parseField at h
    dsimp only at h
    have hold : ∀ p ∈ peers, p.Normal C := hc r peers rfl
    split at h
    · obtain ⟨r', -, rfl⟩ := map_eq_ok_iff.mp h
      intro l ps heq
      cases heq
      exact hold
    · obtain ⟨peers', hpeers, rfl⟩ := map_eq_ok_iff.mp h
      intro l ps heq
      cases heq
      exact parsePeers_normal hpeers hold
  | _ =>
    intro l ps heq
    subst heq
    unfold Content.parseField at h
    dsimp only at h
    repeat' split at h
    all_goals first
      | cases h
      | (obtain ⟨_, -, heq⟩ := map_eq_ok_iff.mp h; cases heq)

theorem content_parse_normal {c c' : Content} {fieldName : Text} {object : Json}
    (h : c.parse C B fieldName object = .ok c') (hc : c.Normal C) : c'.Normal C := by
  unfold Content.parse at h
  split at h
  · cases h
    exact hc
  · split_ifs at h
    split at h
    · exact foldlM_keeps (P := Content.Normal C) (fun _ _ _ => parseField_normal) h hc
    · cases h

theorem create_normal {fields : List (Text × Json)} {m : Message}
    (h : Message.create stray fields = .ok m) :
    m.content.Normal C := by
  unfold Message.create at h
  split at h
  · cases h
  · obtain ⟨messageType, -, h⟩ := bind_eq_ok_iff.mp h
    obtain ⟨c, hc, rfl⟩ := map_eq_ok_iff.mp h
    unfold Message.createMessage at hc
    obtain ⟨type, -, hc⟩ := bind_eq_ok_iff.mp hc
    obtain ⟨method, -, hc⟩ := bind_eq_ok_iff.mp hc
    intro l peers heq
    dsimp only at heq
    subst heq
    cases type with
    | err => cases hc
    | request => cases method <;> cases hc
    | response =>
      cases method <;> cases hc
      simp

/-- A message that was received is one of those. -/
theorem parse_normal {root : Json} {m : Message} (h : Message.parse C B stray root = .ok m) :
    m.content.Normal C := by
  unfold Message.parse at h
  split at h
  · obtain ⟨m₀, hcreate, h⟩ := bind_eq_ok_iff.mp h
    refine foldlM_keeps (P := fun m => m.content.Normal C) (fun m f m' hf hm => ?_) h ?_
    · unfold Message.parseField at hf
      split_ifs at hf
      · obtain ⟨txid, -, rfl⟩ := map_eq_ok_iff.mp hf
        exact hm
      · obtain ⟨v, -, rfl⟩ := map_eq_ok_iff.mp hf
        exact hm
      · obtain ⟨c, hc, rfl⟩ := map_eq_ok_iff.mp hf
        exact content_parse_normal hc hm
      · cases hf
        exact hm
    · exact create_normal hcreate
  · cases h

end Parse

namespace InUse

variable {C : Crypto} {R : RandomOrder} {s : InUse}

/-- A peer that was made by a constructor and is signed. -/
def Signed (C : Crypto) (peer : PeerInfo) : Prop := peer.Normal C ∧ peer.isValid C = true

/-- The rows of the table of peers and the peers of the operations that are going on are signed. -/
structure AllSigned (C : Crypto) (s : InUse) : Prop where
  rows : ∀ row ∈ s.node.storage.peers.rows, row.Authentic C
  pending : ∀ q ∈ s.findPeers, FindPeer.All (Signed C) q.2

/-- The rows that the step writes are authentic. -/
def WritesAuthentic (C : Crypto) (before after : InUse) : Prop :=
  ∀ row ∈ after.node.storage.peers.rows, row ∉ before.node.storage.peers.rows → row.Authentic C

/-- An announced peer that gets to the storage unsigned. -/
def TakesUnsigned (C : Crypto) (s : InUse) (e : StorageEvent C) : Prop :=
  ∃ msg peer, e = .request msg ∧ s.rx = true ∧ s.node.Hears msg ∧ s.node.Announces C msg peer ∧
    peer.isValid C = false

/-- An operation on the table leaves authentic rows if it writes signed peers. -/
theorem authentic_step (hC : C.NormalForm) {T : PeerTable}
    (hT : ∀ row ∈ T.rows, row.Authentic C) {now : Nat} {op : PeerTable.Op}
    (hop : ∀ p ∈ op.peers, Signed C p) :
    ∀ row ∈ (T.step now op).rows, row.Authentic C := by
  intro row hrow
  obtain ⟨old, hold, rfl | rfl⟩ | ⟨peer, hpeer, p, an, rfl⟩ := PeerTable.mem_step hrow
  · exact hT row hold
  · exact hT old hold
  · obtain ⟨hnormal, hvalid⟩ := hop peer hpeer
    exact (PeerRow.authentic_ofPeer hC hnormal p now an).mpr hvalid

theorem AllSigned.onPeers (hC : C.NormalForm) (h : AllSigned C s) {op : PeerTable.Op}
    (hop : ∀ p ∈ op.peers, Signed C p) : AllSigned C (s.onPeers op) :=
  ⟨authentic_step hC h.rows hop, h.pending⟩

/-- The peers of the storage are signed if its rows are authentic. -/
theorem signed_of_getPeer {T : PeerTable} (hT : ∀ row ∈ T.rows, row.Authentic C)
    {now : Nat} {id : Id} {expected : Int} {stored : List PeerInfo}
    (h : T.getPeer C R now id expected = .ok stored) :
    ∀ p ∈ stored, Signed C p := by
  intro p hp
  obtain ⟨row, hrow, -, hread⟩ := PeerTable.mem_getPeer h p hp
  obtain ⟨p', hread', hvalid⟩ := hT row hrow
  cases hread.symm.trans hread'
  exact ⟨(PeerInfo.made_of_eq_ok hread).normal, hvalid⟩

theorem AllSigned.findPeer (h : AllSigned C s) (id : Id) (expected : Int) (option : LookupOption) :
    AllSigned C (s.findPeer C R id expected option) := by
  unfold InUse.findPeer
  split
  · exact h
  · next stored hstored =>
    dsimp only
    split_ifs
    · exact h
    · refine ⟨h.rows, fun q hq => ?_⟩
      obtain hq | hq := List.mem_append.mp hq
      · exact h.pending q hq
      · rw [List.mem_singleton.mp hq]
        exact FindPeer.all_start (signed_of_getPeer h.rows hstored)

/-- A peer lookup finds signed peers only. -/
theorem signed_peersFound {id : Id} {lookup : Lookup}
    {events : List (UInt64 × LookupTask.LookupEvent)}
    (normal : ∀ t key r, (t, .call key (.responded r)) ∈ events → r.response.content.Normal C) :
    ∀ p ∈ peersFound C id lookup events, Signed C p := by
  intro p hp
  obtain ⟨x, hx, hp⟩ := List.mem_flatMap.mp hp
  cases x with
  | peers ps =>
    obtain ⟨hvalid, t, key, r, l, hmem, hc⟩ := FindPeer.peers_of_mem_results rfl hx
    exact ⟨normal t key r hmem l ps hc p hp, hvalid p hp⟩
  | _ => cases hp

theorem AllSigned.foundPeers (hC : C.NormalForm) (h : AllSigned C s) {op : Nat} {lookup : Lookup}
    {events : List (UInt64 × LookupTask.LookupEvent)}
    (normal : ∀ t key r, (t, .call key (.responded r)) ∈ events → r.response.content.Normal C) :
    AllSigned C (s.foundPeers C op lookup events) := by
  unfold InUse.foundPeers
  split
  · exact h
  · next id q hq =>
    have hfound : ∀ p ∈ peersFound C id lookup events, Signed C p := signed_peersFound normal
    have hcollect := (h.pending _ (List.mem_of_getElem? hq)).collect hfound
    have hset : AllSigned C { s with
        findPeers :=
          s.findPeers.set op (id, (q.collect (peersFound C id lookup events)).settle) } := by
      refine ⟨h.rows, fun q' hq' => ?_⟩
      obtain hq' | rfl := List.mem_or_eq_of_mem_set hq'
      · exact h.pending q' hq'
      · exact hcollect.settle
    have hresults :
        ∀ p ∈ (PeerTable.Op.putPeers (q.collect (peersFound C id lookup events)).results).peers,
        Signed C p := hcollect.results
    exact hset.onPeers hC hresults

theorem AllSigned.announcePeer (hC : C.NormalForm) (h : AllSigned C s) {peer : PeerInfo}
    (normal : peer.Normal C) (persistent : Bool) :
    AllSigned C (s.announcePeer C peer persistent) := by
  unfold InUse.announcePeer
  split_ifs with hpeer
  · refine h.onPeers hC fun p hp => ?_
    rw [List.mem_singleton.mp hp]
    exact ⟨normal, hpeer.2⟩
  · exact h

theorem request_findPeers (s : InUse) (msg : Message) :
    (s.request C R msg).findPeers = s.findPeers := by
  unfold request
  split_ifs
  · rfl
  · split <;> rfl

/-- A request writes authentic rows exactly if it does not announce an unsigned peer. -/
theorem request_writesAuthentic (hC : C.NormalForm) (h : AllSigned C s) (msg : Message) :
    WritesAuthentic C s (s.request C R msg) ↔ ¬ TakesUnsigned C s (.request msg) := by
  have hnormal {peer : PeerInfo} (hpeer : s.node.Announces C msg peer) : peer.Normal C := by
    obtain ⟨q, -, hpeer⟩ := hpeer
    exact (PeerInfo.made_of_eq_ok hpeer.getPeer).normal
  constructor
  · rintro hw ⟨msg', peer, heq, hrx, hears, hpeer, hinvalid⟩
    cases heq
    obtain ⟨after, hserve, hs⟩ := Node.serve_announces (R := R) hears hpeer
    have hafter : (s.request C R msg).node.storage = s.node.storage.putPeer s.now peer := by
      rw [request, hrx, hserve]
      exact hs
    have hmem := PeerTable.ofPeer_mem_putPeer s.node.storage.peers s.now peer false false
    have hauth : (PeerRow.ofPeer peer false s.now 0).Authentic C := by
      by_cases hold : PeerRow.ofPeer peer false s.now 0 ∈ s.node.storage.peers.rows
      · exact h.rows _ hold
      · refine hw _ ?_ hold
        rw [hafter]
        exact hmem
    rw [PeerRow.authentic_ofPeer hC (hnormal hpeer), hinvalid] at hauth
    cases hauth
  · intro hsigned row hrow hnew
    unfold request at hrow
    split_ifs at hrow with hrx
    · exact absurd hrow hnew
    · split at hrow
      · next node hok =>
        dsimp only at hrow
        obtain ⟨peer, hears, hpeer, hs⟩ | hs | ⟨v, hv, seq, hs⟩ := Node.serve_storage hok
        · rw [hs] at hrow
          obtain hold | rfl := PeerTable.mem_putPeer hrow
          · exact absurd hold hnew
          · refine (PeerRow.authentic_ofPeer hC (hnormal hpeer) _ _ _).mpr ?_
            by_contra hinvalid
            exact hsigned ⟨msg, peer, rfl, by simpa using hrx, hears,
              hpeer, by simpa using hinvalid⟩
        · rw [hs] at hrow
          exact absurd hrow hnew
        · rw [hs] at hrow
          exact absurd hrow hnew
      · exact absurd hrow hnew

/-- Every step keeps all peers signed, as far as the rows that the network writes are authentic. -/
theorem step_allSigned (hC : C.NormalForm) (h : AllSigned C s) {e : StorageEvent C}
    (hw : e.fromNetwork = true → WritesAuthentic C s (s.step C R e)) :
    AllSigned C (s.step C R e) := by
  cases e with
  | elsewhere => exact ⟨h.rows, h.pending⟩
  | request msg =>
    refine ⟨fun row hrow => ?_, ?_⟩
    · by_cases hold : row ∈ s.node.storage.peers.rows
      · exact h.rows row hold
      · exact hw rfl row hrow hold
    · change ∀ q ∈ (s.request C R msg).findPeers, _
      rw [request_findPeers]
      exact h.pending
  | findValue id option =>
    change AllSigned C (s.findValue id option)
    unfold findValue
    split
    · exact h
    · exact ⟨h.rows, h.pending⟩
  | foundValue op found =>
    change AllSigned C (s.foundValue C op found)
    unfold foundValue
    split
    · exact h
    · dsimp only
      split
      · split_ifs <;> exact ⟨h.rows, h.pending⟩
      · exact ⟨h.rows, h.pending⟩
  | storeValue value persistent =>
    change AllSigned C (s.storeValue C value persistent)
    unfold storeValue
    split_ifs
    · exact ⟨h.rows, h.pending⟩
    · exact h
  | removeValue => exact ⟨h.rows, h.pending⟩
  | updateValueLastAnnounce => exact ⟨h.rows, h.pending⟩
  | findPeer id expected option => exact h.findPeer id expected option
  | foundPeers op lookup events normal => exact h.foundPeers hC normal
  | announcePeer peer persistent normal => exact h.announcePeer hC normal persistent
  | removePeer peerId => exact h.onPeers hC (by simp [PeerTable.Op.peers])
  | updatePeerLastAnnounce peerId origin => exact h.onPeers hC (by simp [PeerTable.Op.peers])
  | expire =>
    have hvalues : AllSigned C (s.onValues C .expire (by simp)) := ⟨h.rows, h.pending⟩
    exact hvalues.onPeers hC (by simp [PeerTable.Op.peers])

theorem step_writesAuthentic (hC : C.NormalForm) (h : AllSigned C s) (e : StorageEvent C) :
    (e.fromNetwork = true → WritesAuthentic C s (s.step C R e)) ↔ ¬ TakesUnsigned C s e := by
  cases e with
  | request msg =>
    rw [← request_writesAuthentic (R := R) hC h]
    exact ⟨fun hw => hw rfl, fun hw _ => hw⟩
  | foundPeers op lookup events normal =>
    refine iff_of_true (fun _ row hrow _ => (h.foundPeers hC normal).rows row hrow) ?_
    rintro ⟨msg, peer, heq, -⟩
    cases heq
  | _ =>
    refine iff_of_true (fun hnet => by cases hnet) ?_
    rintro ⟨msg, peer, heq, -⟩
    cases heq

theorem run_append (s : InUse) (pre : List (StorageEvent C)) (e : StorageEvent C) :
    s.run C R (pre ++ [e]) = (s.run C R pre).step C R e := by
  simp [run]

end InUse

/-- A node with an empty storage, and the events up to now. -/
def usedNode (C : Crypto) (R : RandomOrder) (node : Node)
    (events : List (StorageEvent C)) : InUse :=
  InUse.run C R { node := { node with storage := Storage.empty } } events

/-- In a run of a node, every row of the table of peers that is written because of network input
holds a signed peer, exactly if no unsigned peer is announced with a token that is accepted. -/
theorem peers_authentic_iff (C : Crypto) (hC : C.NormalForm) (R : RandomOrder) (node : Node)
    (events : List (StorageEvent C)) :
    Runs.Every (fun pre e => e.fromNetwork = true →
        InUse.WritesAuthentic C (usedNode C R node pre)
          ((usedNode C R node pre).step C R e)) events ↔
      Runs.Every (fun pre e => ¬ InUse.TakesUnsigned C (usedNode C R node pre) e) events := by
  refine Runs.every_iff_of_inv (I := fun pre => InUse.AllSigned C (usedNode C R node pre))
    ?_ ?_ ?_ events
  · refine ⟨fun row hrow => ?_, fun q hq => ?_⟩
    · cases hrow
    · cases hq
  · intro pre e hinv hw
    rw [usedNode, InUse.run_append]
    exact InUse.step_allSigned hC hinv hw
  · intro pre e hinv
    exact InUse.step_writesAuthentic hC hinv e

/-! ## An announced peer -/

/-- The peer's signature of the port 80 of the node with the id `05..05`. The peer's key is
`ownerKey`. -/
def peerSignature : List UInt8 :=
  [211, 1, 93, 180, 59, 103, 23, 140, 211, 102, 231, 57, 48, 109, 162, 31, 84, 128, 88, 250, 146,
    22, 111, 22,
   29, 22, 168, 208, 34, 87, 158, 191, 12, 196, 39, 41, 171, 27, 96, 72, 14, 86, 101, 71, 28,
     140, 10, 43, 12,
   20, 254, 232, 228, 253, 73, 189, 174, 56, 119, 146, 60, 197, 213, 4]

/-- The SHA-256 of what the token of the example is made from. -/
def tokenDigest : Id :=
  ⟨[215, 123, 219, 201, 80, 115, 133, 141, 28, 84, 29, 119, 143, 243, 21, 151, 156, 127, 11, 176,
    144, 75, 200, 57, 237, 133, 133, 152, 248, 166, 226, 139], rfl⟩

/-- The hash and the signature check, for the example. -/
def peerCrypto : Crypto where
  sha256 _ := tokenDigest
  verify m sig pk := pk = ValueTable.ownerKey && sig = peerSignature &&
    m = List.replicate 64 5 ++ [0, 80]
  utf8NFC text := text.takeWhile (· ≠ 0)

theorem peerCrypto_normalForm : peerCrypto.NormalForm where
  idem text := by
    refine List.takeWhile_eq_self_iff.mpr fun b hb => ?_
    have hmem : b ∈ text.takeWhile (· ≠ 0) := hb
    simpa using List.mem_takeWhile_imp hmem
  text text h := by
    have := List.mem_takeWhile_imp h
    simp at this

/-- A request to announce the peer, with a token that is accepted. -/
def announceRequest (signature : List UInt8) : AnnouncePeerRequest where
  token := 971867525
  peerId := ValueTable.ownerKey
  port := 80
  signature := signature

/-- The request comes from the node `05..05`. -/
def announcement (signature : List UInt8) : Message :=
  Node.inetRequest (.announcePeerRequest (announceRequest signature))

open Node (storedOrder inetNode)

theorem peers_authentic_announced :
    peerCrypto.NormalForm ∧
    (usedNode peerCrypto storedOrder inetNode
      [.request (announcement peerSignature)]).node.storage.peers.rows ≠ [] ∧
    Runs.Every (fun pre (e : StorageEvent peerCrypto) => e.fromNetwork = true →
        InUse.WritesAuthentic peerCrypto (usedNode peerCrypto storedOrder inetNode pre)
          ((usedNode peerCrypto storedOrder inetNode pre).step peerCrypto storedOrder e))
      [.request (announcement peerSignature)] := by
  refine ⟨peerCrypto_normalForm, by decide +kernel, ?_⟩
  refine (peers_authentic_iff peerCrypto peerCrypto_normalForm storedOrder inetNode _).mpr ?_
  refine Runs.every_singleton.mpr ?_
  rintro ⟨msg, peer, heq, -, -, ⟨q, hc, hpeer⟩, hinvalid⟩
  cases heq
  cases hc
  have hvalid : (((announceRequest peerSignature).getPeer peerCrypto
      (announcement peerSignature).id).toOption.all fun p => p.isValid peerCrypto) = true := by
    decide +kernel
  rw [hpeer.getPeer] at hvalid
  simp [Except.toOption, hinvalid] at hvalid

/-- A peer with a signature of zeros is announced, and written. -/
theorem not_authentic_unsigned :
    ¬ Runs.Every (fun pre (e : StorageEvent peerCrypto) => e.fromNetwork = true →
        InUse.WritesAuthentic peerCrypto (usedNode peerCrypto storedOrder inetNode pre)
          ((usedNode peerCrypto storedOrder inetNode pre).step peerCrypto storedOrder e))
      [.request (announcement (List.replicate 64 0))] := by
  intro h
  have hwrites := h [] _ [] rfl rfl
  obtain ⟨row, hrow⟩ := List.exists_mem_of_ne_nil
    ((usedNode peerCrypto storedOrder inetNode []).step peerCrypto storedOrder
      (.request (announcement (List.replicate 64 0)))).node.storage.peers.rows (by decide +kernel)
  have hinvalid : ∀ row ∈ ((usedNode peerCrypto storedOrder inetNode []).step peerCrypto storedOrder
      (.request (announcement (List.replicate 64 0)))).node.storage.peers.rows,
      ((row.toPeer peerCrypto).toOption.all fun p => !p.isValid peerCrypto) = true := by
    decide +kernel
  obtain ⟨peer, hread, hvalid⟩ := hwrites row hrow List.not_mem_nil
  have hbad := hinvalid row hrow
  rw [hread] at hbad
  simp [Except.toOption, hvalid] at hbad

end Boson
