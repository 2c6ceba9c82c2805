import Boson.Node.Integrity

/-!
# Persistent peers

A peer that the user of a node announces with `persistent` is announced again and again, and
`expire` leaves its row alone. All writes of peers go through one statement, which sets the columns
`persistent` and `privateKey` too.

* `persistentPeers_kept_iff`: over every run of a node, the network does not downgrade a persistent
  row exactly if it never gets the node to write a peer with the key of such a row.
* `reads_agree_iff`: the three ways to read a peer give back what was stored exactly if its URL is
  not empty and it is not persistent and delegated: `getPersistentPeers` does not read the origin.
-/

namespace Boson

namespace PeerTable

variable {T : PeerTable} {now : Nat} {peer : PeerInfo} {k : Id × Id × Id}

theorem lookup_putPeer (persistent updateLastAnnounce : Bool) :
    (T.putPeer now peer persistent updateLastAnnounce).lookup k =
      if k = peer.key then
        some (PeerRow.ofPeer peer persistent now (if updateLastAnnounce then now else 0))
      else T.lookup k :=
  lookup_upsertPeer ..

/-- A put of several peers leaves a row with the key of one of them that is not persistent. -/
theorem lookup_putPeers_of_mem {peers : List PeerInfo} (hk : ∃ q ∈ peers, q.key = k) :
    ∃ q, (T.putPeers now peers).lookup k = some (PeerRow.ofPeer q false now 0) := by
  induction peers using List.reverseRecOn with
  | nil => simp at hk
  | append_singleton peers p ih =>
    rw [putPeers, List.foldl_concat, ← putPeers, lookup_putPeer]
    by_cases hp : k = p.key
    · rw [if_pos hp]
      exact ⟨p, rfl⟩
    · rw [if_neg hp]
      obtain ⟨q, hq, hqk⟩ := hk
      obtain hq | hq := List.mem_append.mp hq
      · exact ih ⟨q, hq, hqk⟩
      · rw [List.mem_singleton.mp hq] at hqk
        exact absurd hqk.symm hp

/-- A put of several peers leaves the rows with other keys. -/
theorem lookup_putPeers_of_not_mem {peers : List PeerInfo} (hk : ∀ q ∈ peers, q.key ≠ k) :
    (T.putPeers now peers).lookup k = T.lookup k := by
  induction peers generalizing T with
  | nil => rfl
  | cons p peers ih =>
    rw [List.forall_mem_cons] at hk
    refine (ih hk.2).trans ?_
    rw [lookup_putPeer, if_neg hk.1.symm]

end PeerTable

/-! ## Writes from the network -/

namespace InUse

variable {C : Crypto} {R : RandomOrder} {s : InUse}

/-- The persistent rows of the peers keep their flag and their private keys. -/
def KeepsPersistent (before after : InUse) : Prop :=
  ∀ r ∈ before.node.storage.peers.rows, r.persistent = true →
    ∃ r', after.node.storage.peers.lookup r.key = some r' ∧ r'.persistent = true ∧
      (r.privateKey.isSome = true → r'.privateKey.isSome = true)

/-- The event gets the node to write this peer, with a request or with what a lookup found. -/
def Takes (C : Crypto) (s : InUse) (peer : PeerInfo) : StorageEvent C → Prop
  | .request msg => s.rx = true ∧ s.node.Hears msg ∧ s.node.Announces C msg peer
  | .foundPeers op lookup events _ =>
    ∃ id q, s.findPeers[op]? = some (id, q) ∧
      peer ∈ (q.collect (peersFound C id lookup events)).results
  | _ => False

/-- The event gets the node to write a peer with the key of a persistent row. -/
def RewritesPersistent (C : Crypto) (s : InUse) (e : StorageEvent C) : Prop :=
  ∃ peer r, s.Takes C peer e ∧ s.node.storage.peers.lookup peer.key = some r ∧ r.persistent = true

theorem takes_request_unique {msg : Message} {peer peer' : PeerInfo}
    (h : s.Takes C peer (.request msg))
    (h' : s.Takes C peer' (.request msg)) : peer' = peer := by
  obtain ⟨-, -, q, hq, hpeer⟩ := h
  obtain ⟨-, -, q', hq', hpeer'⟩ := h'
  cases hq.symm.trans hq'
  exact Except.ok.inj (hpeer'.getPeer.symm.trans hpeer.getPeer)

/-- The table of peers after a request that announces a peer. -/
theorem request_takes {msg : Message} {peer : PeerInfo} (h : s.Takes C peer (.request msg)) :
    (s.request C R msg).node.storage.peers = s.node.storage.peers.putPeer s.now
      peer false false := by
  obtain ⟨hrx, hears, hpeer⟩ := h
  obtain ⟨after, hserve, hs⟩ := Node.serve_announces (R := R) hears hpeer
  rw [request, hrx, hserve]
  exact congrArg Storage.peers hs

/-- The table of peers after any other request. -/
theorem request_takes_none {msg : Message} (h : ∀ peer, ¬ s.Takes C peer (.request msg)) :
    (s.request C R msg).node.storage.peers = s.node.storage.peers := by
  unfold request
  split_ifs with hrx
  · rfl
  · split
    · next node hok =>
      obtain ⟨peer, hears, hpeer, -⟩ | hs | ⟨v, hv, seq, hs⟩ := Node.serve_storage hok
      · exact absurd ⟨by simpa using hrx, hears, hpeer⟩ (h peer)
      · exact congrArg Storage.peers hs
      · exact (congrArg Storage.peers hs :)
    · rfl

/-- The table of peers after an event from the network: the peers that it brings are put as not
persistent. -/
theorem step_peers (s : InUse) (e : StorageEvent C) (he : e.fromNetwork = true) :
    ∃ peers, (s.step C R e).node.storage.peers = s.node.storage.peers.putPeers s.now peers ∧
      ∀ peer, peer ∈ peers ↔ s.Takes C peer e := by
  cases e with
  | request msg =>
    by_cases htakes : ∃ peer, s.Takes C peer (.request msg)
    · obtain ⟨peer, hpeer⟩ := htakes
      refine ⟨[peer], request_takes hpeer, fun p => ?_⟩
      rw [List.mem_singleton]
      exact ⟨fun h => h ▸ hpeer, takes_request_unique hpeer⟩
    · rw [not_exists] at htakes
      exact ⟨[], request_takes_none htakes, fun p => by simpa using htakes p⟩
  | foundPeers op lookup events normal =>
    change ∃ peers, (s.foundPeers C op lookup events).node.storage.peers = _ ∧ _
    unfold foundPeers
    split
    · next hnone => exact ⟨[], rfl, fun p => by simp [Takes, hnone]⟩
    · next id q hq => exact ⟨_, rfl, fun p => by simp [Takes, hq]⟩
  | _ => cases he

/-- An event from the network keeps the persistent rows exactly if it brings no peer with the key of
one. -/
theorem step_keepsPersistent (s : InUse) (e : StorageEvent C) :
    (e.fromNetwork = true → KeepsPersistent s (s.step C R e)) ↔ ¬ s.RewritesPersistent C e := by
  by_cases he : e.fromNetwork = true
  · obtain ⟨peers, hafter, hpeers⟩ := step_peers (R := R) s e he
    constructor
    · rintro hkeep ⟨peer, r, htakes, hr, hp⟩
      have hkey := Table.lookup_key hr
      obtain ⟨r', hr', hp', -⟩ := hkeep he r (Table.lookup_eq_some_iff.mp hr).1 hp
      rw [hafter] at hr'
      obtain ⟨q, hq⟩ := PeerTable.lookup_putPeers_of_mem ⟨peer, (hpeers peer).mpr htakes, hkey.symm⟩
      rw [hq] at hr'
      cases hr'
      cases hp'
    · intro hno _ r hr hp
      rw [Table.mem_rows_iff] at hr
      refine ⟨r, ?_, hp, id⟩
      rw [hafter, PeerTable.lookup_putPeers_of_not_mem fun q hq hkey => ?_, hr]
      exact hno ⟨q, r, (hpeers q).mp hq, hkey ▸ hr, hp⟩
  · refine iff_of_true (fun h => absurd h he) ?_
    rintro ⟨peer, r, htakes, -⟩
    cases e with
    | request => exact he rfl
    | foundPeers => exact he rfl
    | _ => exact htakes

end InUse

/-- Over every run of a node, from any state of its storage: no event from the network takes a
persistent peer's flag or private key away, exactly if none gets the node to write a peer with the
key of a persistent row. -/
theorem persistentPeers_kept_iff (C : Crypto) (R : RandomOrder) (s : InUse)
    (events : List (StorageEvent C)) :
    Runs.Every (fun pre e => e.fromNetwork = true →
        InUse.KeepsPersistent (s.run C R pre) ((s.run C R pre).step C R e)) events ↔
      Runs.Every (fun pre e => ¬ (s.run C R pre).RewritesPersistent C e) events := by
  constructor
  · intro h pre e post heq
    exact (InUse.step_keepsPersistent _ e).mp (h pre e post heq)
  · intro h pre e post heq
    exact (InUse.step_keepsPersistent _ e).mpr (h pre e post heq)

/-! ### A node that looks for its own peer -/

/-- The peer of `announcement`, with its private key, as its own node has it. -/
def ownPeer : PeerInfo where
  publicKey := ValueTable.ownerKey
  privateKey := some (Bytes.fill 64 1)
  nodeId := ⟨List.replicate 32 5, by simp⟩
  origin := ⟨List.replicate 32 5, by simp⟩
  port := 80
  signature := peerSignature
  port_ok := fun h => absurd h (by decide)
  signature_ok := rfl

/-- That node. -/
def ownNode : InUse where
  node := { Node.inetNode with id := ⟨List.replicate 32 5, by simp⟩ }

/-- The node announces its peer for good, looks for it and finds nothing new. -/
def ownLookup : List (StorageEvent peerCrypto) :=
  [.announcePeer ownPeer true (fun _ h => nomatch h), .findPeer ownPeer.publicKey 0 .conservative]

/-- The end of that lookup writes the peer that was in the storage, and its row is not persistent
any more. -/
theorem not_kept_ownLookup :
    ¬ Runs.Every (fun pre (e : StorageEvent peerCrypto) => e.fromNetwork = true →
        InUse.KeepsPersistent (ownNode.run peerCrypto Node.storedOrder pre)
          ((ownNode.run peerCrypto Node.storedOrder pre).step peerCrypto Node.storedOrder e))
      (ownLookup ++ [.foundPeers 0 FindPeer.trusting [] (by simp)]) := by
  intro h
  have hkeep := h ownLookup _ [] rfl rfl
  have hrow : PeerRow.ofPeer ownPeer true 0 0 ∈
      (ownNode.run peerCrypto Node.storedOrder ownLookup).node.storage.peers.rows := by
    decide +kernel
  have hafter :
      ((((ownNode.run peerCrypto Node.storedOrder ownLookup).step peerCrypto Node.storedOrder
      (.foundPeers 0 FindPeer.trusting [] (by simp))).node.storage.peers.lookup
        (PeerRow.ofPeer ownPeer true 0 0).key).all fun r => !r.persistent) = true := by
    decide +kernel
  obtain ⟨r, hr, hp, -⟩ := hkeep _ hrow rfl
  rw [hr] at hafter
  simp [hp] at hafter

/-! ## Reads -/

namespace PeerTable

/-- A read of the table. -/
inductive Read where
  | getPeer (R : RandomOrder) (now : Nat) (peerId : Id) (maxPeers : Int)
  | getPeerOf (R : RandomOrder) (now : Nat) (peerId origin : Id)
  | getPersistentPeers (lastAnnounceBefore : Int)

/-- The rows that a read goes through, in their order. -/
def Read.rows (T : PeerTable) : Read → List PeerRow
  | .getPeer R now peerId maxPeers =>
    (R.order (T.liveRows now peerId)).take (if maxPeers ≤ 0 then 0x7fffffff else maxPeers.toNat)
  | .getPeerOf R now peerId origin => (R.order (T.srcRows now peerId origin)).take 1
  | .getPersistentPeers b => T.persistentRows b

/-- What a read returns. -/
def Read.peers (C : Crypto) (T : PeerTable) : Read → Except String (List PeerInfo)
  | .getPeer R now peerId maxPeers => T.getPeer C R now peerId maxPeers
  | .getPeerOf R now peerId origin => Option.toList <$> T.getPeerOf C R now peerId origin
  | .getPersistentPeers b => T.getPersistentPeers C b

/-- How a read decodes a row. -/
def Read.decode (C : Crypto) : Read → PeerRow → Except String PeerInfo
  | .getPersistentPeers _ => PeerRow.toPersistentPeer C
  | _ => PeerRow.toPeer C

theorem Read.peers_eq (C : Crypto) (T : PeerTable) (read : Read) :
    read.peers C T = (read.rows T).mapM (read.decode C) := by
  cases read with
  | getPeer R now peerId maxPeers => rfl
  | getPeerOf R now peerId origin =>
    change Option.toList <$> T.getPeerOf C R now peerId origin =
      ((R.order (T.srcRows now peerId origin)).take 1).mapM (PeerRow.toPeer C)
    unfold PeerTable.getPeerOf
    cases R.order (T.srcRows now peerId origin) with
    | nil => rfl
    | cons row rows =>
      simp only [List.take_succ_cons, List.take_zero, List.head?_cons, List.mapM_cons,
        List.mapM_nil]
      cases row.toPeer C <;> rfl
  | getPersistentPeers b => rfl

/-- What `persistentAnnounce` needs of the peer that it got for the row of `p`: that it is as valid
as `p`, and that `updatePeerLastAnnounce` finds the row under its ids. -/
structure Reannounced (C : Crypto) (T : PeerTable) (p got : PeerInfo) : Prop where
  valid : p.isValid C = true → got.isValid C = true
  updated : ∀ now, ∃ r, (T.updatePeerLastAnnounce now got.publicKey got.origin).lookup
    p.key = some r ∧ r.announced = now

/-- The reads agree about `p`: no read throws, and each gives back `p` for the row of `p`. -/
structure Agrees (C : Crypto) (T : PeerTable) (p : PeerInfo) : Prop where
  reads : ∀ read : Read, ∃ peers, read.peers C T = .ok peers ∧
    ∀ r got, (r, got) ∈ (read.rows T).zip peers → r.key = p.key → got = p
  reannounced : ∀ b peers, T.getPersistentPeers C b = .ok peers →
    ∀ r got, (r, got) ∈ (T.persistentRows b).zip peers → r.key = p.key → Reannounced C T p got

/-- The row of `p`, if there is one, holds `p`. -/
def Holds (T : PeerTable) (p : PeerInfo) (persistent : Bool) : Prop :=
  ∀ r ∈ T.rows, r.key = p.key → ∃ ts an, r = PeerRow.ofPeer p persistent ts an

variable {C : Crypto} {p : PeerInfo} {persistent : Bool} {r : PeerRow} {T : PeerTable}

/-- An operation that does not put a peer with the key of `p` leaves what the row holds. -/
theorem step_holds (h : Holds T p persistent) {op : Op}
    (hop : ∀ q ∈ op.peers, q.key ≠ p.key) (now : Nat) :
    Holds (T.step now op) p persistent := by
  intro r hr hkey
  obtain ⟨old, hold, rfl | rfl⟩ | ⟨q, hq, p', an, rfl⟩ := mem_step hr
  · exact h r hold hkey
  · obtain ⟨ts, an, rfl⟩ := h old hold hkey
    exact ⟨now, now, rfl⟩
  · exact absurd hkey (hop q hq)

theorem putPeer_holds (T : PeerTable) (now : Nat) (p : PeerInfo) (persistent u : Bool) :
    Holds (T.putPeer now p persistent u) p persistent := by
  intro r hr hkey
  rw [Table.mem_rows_iff, lookup_putPeer, if_pos hkey] at hr
  exact ⟨now, _, (Option.some.inj hr).symm⟩

/-- The rows of a read are rows of the table. -/
theorem Read.rows_subset (read : Read) (h : r ∈ read.rows T) : r ∈ T.rows := by
  cases read with
  | getPeer R now peerId maxPeers =>
    exact List.mem_of_mem_filter ((R.perm _).mem_iff.mp (List.mem_of_mem_take h))
  | getPeerOf R now peerId origin =>
    exact List.mem_of_mem_filter ((R.perm _).mem_iff.mp (List.mem_of_mem_take h))
  | getPersistentPeers b => exact List.mem_of_mem_filter h

/-- A read of rows that can be read does not throw. -/
theorem Read.peers_ok (hT : ∀ row ∈ T.rows, row.Readable) (read : Read) :
    ∃ peers, read.peers C T = .ok peers := by
  rw [read.peers_eq]
  obtain ⟨peers, hpeers, -⟩ := FoldM.mapM_ok (l := read.rows T) (g := read.decode C) fun r hr => by
    have hreadable := hT r (read.rows_subset hr)
    cases read with
    | getPersistentPeers b => exact PeerRow.toPersistentPeer_of_readable C hreadable
    | _ => exact PeerRow.toPeer_of_readable C hreadable
  exact ⟨peers, hpeers⟩

end PeerTable

namespace PeerRow

variable {C : Crypto} {p q : PeerInfo}

/-- The URL of a peer comes back from its row exactly if it is not empty. -/
theorem url_ofPeer_eq_iff (hC : C.NormalForm) (h : p.Normal C) (persistent : Bool) (ts an : Int) :
    (if (ofPeer p persistent ts an).alternativeURL.getD [] = [] then none
      else some (C.utf8NFC ((ofPeer p persistent ts an).alternativeURL.getD []))) =
        p.alternativeURL ↔
      p.alternativeURL ≠ some [] := by
  have hurl := url_ofPeer hC h persistent ts an
  constructor
  · intro heq hnil
    rw [ofPeer, hnil] at heq
    cases heq
  · intro hne
    split_ifs at hurl ⊢ with hnil
    · cases hp : p.alternativeURL with
      | none => rfl
      | some url =>
        rw [hp] at hurl hne
        exact absurd (congrArg some hurl.symm) hne
    · cases hp : p.alternativeURL with
      | none => simp [ofPeer, hp] at hnil
      | some url =>
        rw [hp] at hurl
        exact congrArg some hurl

/-- What the constructor makes of the columns of a peer and an origin is that peer exactly if its
URL is not empty and the origin is its own. -/
theorem made_ofPeer_eq_iff (hC : C.NormalForm) (h : p.Normal C) {persistent : Bool} {ts an : Int}
    {origin : List UInt8}
    (hmade : PeerInfo.Made C p.publicKey.bytes ((p.privateKey.map (·.data)).getD [])
      p.nodeId.bytes origin p.port
      ((ofPeer p persistent ts an).alternativeURL.getD []) p.signature q) :
    q = p ↔ p.alternativeURL ≠ some [] ∧ (Id.ofBlob? origin).getD p.nodeId = p.origin := by
  have hkey : q.publicKey = p.publicKey := by simpa using hmade.publicKey.symm
  have hnode : q.nodeId = p.nodeId := by simpa using hmade.nodeId.symm
  have hsecret : q.privateKey = p.privateKey := by
    rw [hmade.privateKey]
    cases p.privateKey with
    | none => rfl
    | some sk => simp
  have horigin : q.origin = (Id.ofBlob? origin).getD p.nodeId := hnode ▸ hmade.origin
  have hurl := hmade.alternativeURL
  rw [← url_ofPeer_eq_iff hC h persistent ts an, ← hurl, ← horigin]
  constructor
  · intro heq
    rw [heq]
    exact ⟨rfl, rfl⟩
  · rintro ⟨hurl', horigin'⟩
    obtain ⟨qk, qs, qn, qo, qp, qu, qg, _, _⟩ := q
    obtain ⟨pk, ps, pn, po, pp, pu, pg, _, _⟩ := p
    cases hkey
    cases hnode
    cases hsecret
    cases hurl'
    cases horigin'
    cases hmade.port
    cases hmade.signature
    rfl

/-- `getPeer` reads the row of a peer as that peer exactly if its URL is not empty. -/
theorem toPeer_ofPeer_eq_iff (hC : C.NormalForm) (h : p.Normal C) {persistent : Bool} {ts an : Int}
    (hq : (ofPeer p persistent ts an).toPeer C = .ok q) : q = p ↔ p.alternativeURL ≠ some [] := by
  refine (made_ofPeer_eq_iff hC h (PeerInfo.made_of_eq_ok hq)).trans (and_iff_left ?_)
  change (Id.ofBlob? p.origin.bytes).getD p.nodeId = p.origin
  rw [Id.ofBlob?_bytes, Option.getD_some]

/-- `getPersistentPeers` reads it as that peer exactly if it is not delegated, too. -/
theorem toPersistentPeer_ofPeer_eq_iff (hC : C.NormalForm) (h : p.Normal C)
    {persistent : Bool} {ts an : Int}
    (hq : (ofPeer p persistent ts an).toPersistentPeer C = .ok q) :
    q = p ↔ p.alternativeURL ≠ some [] ∧ p.isDelegated = false := by
  refine (made_ofPeer_eq_iff hC h (PeerInfo.made_of_eq_ok hq)).trans (and_congr_right fun _ => ?_)
  simp [PeerInfo.isDelegated, Id.ofBlob?]

end PeerRow

/-- The operations on the peers, one after the other. -/
def Storage.runPeers (self : Storage) (ops : List (Nat × PeerTable.Op)) : Storage :=
  ops.foldl (fun s op => s.stepPeers op.1 op.2) self

namespace PeerTable

variable {C : Crypto} {p : PeerInfo} {persistent : Bool} {r : PeerRow} {T : PeerTable}

theorem run_holds {s : Storage} (h : Holds s.peers p persistent) {ops : List (Nat × Op)}
    (hops : ∀ op ∈ ops, ∀ q ∈ op.2.peers, q.key ≠ p.key) :
    Holds (s.runPeers ops).peers p persistent := by
  induction ops generalizing s with
  | nil => exact h
  | cons op ops ih =>
    rw [List.forall_mem_cons] at hops
    exact ih (s := s.stepPeers op.1 op.2) (step_holds h hops.1 op.1) hops.2

/-- `updatePeerLastAnnounce` of a peer's ids finds the rows with its key. -/
theorem reannounced_self (hr : r ∈ T.rows) (hkey : r.key = p.key) : Reannounced C T p p where
  valid := id
  updated now := by
    rw [Table.mem_rows_iff, hkey] at hr
    refine ⟨{ r with timestamp := now, announced := now }, ?_, rfl⟩
    have hids : r.id = p.publicKey ∧ r.nodeId = p.nodeId ∧ r.origin = p.origin := by
      simpa [PeerRow.key, PeerInfo.key] using hkey
    refine (Table.lookup_updateWhere T _ _ _ _).trans ?_
    rw [hr, Option.map_some]
    simp [hids]

/-- The reads agree about a peer whose row holds it, if its URL is not empty and it is not
persistent and delegated. -/
theorem agrees_of_holds (hC : C.NormalForm) (hp : p.Normal C) (hT : ∀ row ∈ T.rows, row.Readable)
    (h : Holds T p persistent) (hurl : p.alternativeURL ≠ some [])
    (hdel : persistent = true → p.isDelegated = false) : Agrees C T p := by
  have hdecode (read : Read) (r : PeerRow) (got : PeerInfo) (hr : r ∈ read.rows T)
      (hkey : r.key = p.key)
      (hgot : read.decode C r = .ok got) : got = p := by
    obtain ⟨ts, an, rfl⟩ := h r (read.rows_subset hr) hkey
    cases read with
    | getPersistentPeers b =>
      have hpersistent : persistent = true := by
        have := (List.mem_filter.mp hr).2
        rw [Bool.and_eq_true] at this
        exact this.1
      exact (PeerRow.toPersistentPeer_ofPeer_eq_iff hC hp hgot).mpr ⟨hurl, hdel hpersistent⟩
    | getPeer => exact (PeerRow.toPeer_ofPeer_eq_iff hC hp hgot).mpr hurl
    | getPeerOf => exact (PeerRow.toPeer_ofPeer_eq_iff hC hp hgot).mpr hurl
  refine ⟨fun read => ?_, fun b peers hpeers r got hzip hkey => ?_⟩
  · obtain ⟨peers, hpeers⟩ := read.peers_ok hT
    refine ⟨peers, hpeers, fun r got hzip hkey => ?_⟩
    rw [read.peers_eq] at hpeers
    exact hdecode read r got (List.of_mem_zip hzip).1 hkey ((FoldM.zip_mapM hpeers).2 r got hzip)
  · have hr := (List.of_mem_zip hzip).1
    rw [hdecode (.getPersistentPeers b) r got hr hkey ((FoldM.zip_mapM hpeers).2 r got hzip)]
    exact reannounced_self (List.mem_of_mem_filter hr) hkey

/-- What a read makes of a row that it finds, where the reads agree. -/
theorem Agrees.decode (h : Agrees C T p) (read : Read) (hr : r ∈ read.rows T)
    (hkey : r.key = p.key) :
    read.decode C r = .ok p := by
  obtain ⟨peers, hpeers, hall⟩ := h.reads read
  rw [read.peers_eq] at hpeers
  obtain ⟨hzip, hread⟩ := FoldM.zip_mapM hpeers
  obtain ⟨got, hgot⟩ := hzip r hr
  rw [hread r got hgot, hall r got hgot hkey]

/-- The order that begins with a row. -/
def rowFirst (r : PeerRow) : RandomOrder where
  order rows := if r ∈ rows then r :: rows.erase r else rows
  perm rows := by
    split_ifs with h
    · exact (List.perm_cons_erase h).symm
    · exact .rfl

/-- A read that finds a given row. -/
theorem exists_getPeer (hr : r ∈ T.rows) {now : Nat} (hts : r.timestamp = now) :
    r ∈ (Read.getPeer (rowFirst r) now r.id 0).rows T := by
  have hlive : r ∈ T.liveRows now r.id := by
    have hage : (now : Int) - MAX_PEER_AGE ≤ r.timestamp := by omega
    refine List.mem_filter.mpr ⟨hr, ?_⟩
    simp [PeerRow.isLive, hage]
  change r ∈ (if r ∈ T.liveRows now r.id then r :: (T.liveRows now r.id).erase r else
    _).take 0x7fffffff
  rw [if_pos hlive, List.take_succ_cons]
  exact List.mem_cons_self

end PeerTable

/-- For every peer that `putPeer` stores, in any storage: after whatever operations but another put
of its row, the reads agree about it, exactly if its URL is not empty and it is not persistent and
delegated. -/
theorem reads_agree_iff (C : Crypto) (hC : C.NormalForm) (s : Storage) (p : PeerInfo)
    (hp : p.Normal C) (persistent updateLastAnnounce : Bool) (now : Nat) :
    (∀ later : List (Nat × PeerTable.Op), (∀ op ∈ later, ∀ q ∈ op.2.peers, q.key ≠ p.key) →
      PeerTable.Agrees C ((s.stepPeers now (.putPeer p persistent updateLastAnnounce)).runPeers
        later).peers p) ↔
      p.alternativeURL ≠ some [] ∧ (persistent = true → p.isDelegated = false) := by
  constructor
  · intro h
    have hagrees := h [] (by simp)
    have hrow := PeerTable.ofPeer_mem_putPeer s.peers now p persistent updateLastAnnounce
    constructor
    · have hread := hagrees.decode (.getPeer _ now _ 0) (PeerTable.exists_getPeer hrow rfl) rfl
      exact (PeerRow.toPeer_ofPeer_eq_iff hC hp hread).mp rfl
    · rintro rfl
      have hread := hagrees.decode (.getPersistentPeers now)
        (List.mem_filter.mpr ⟨hrow, by cases updateLastAnnounce <;> simp [PeerRow.ofPeer]⟩) rfl
      exact ((PeerRow.toPersistentPeer_ofPeer_eq_iff hC hp hread).mp rfl).2
  · rintro ⟨hurl, hdel⟩ later hlater
    refine PeerTable.agrees_of_holds hC hp (Storage.peers_ok _) ?_ hurl hdel
    exact PeerTable.run_holds (PeerTable.putPeer_holds s.peers now p persistent
      updateLastAnnounce) hlater

/-- The peer of `ownNode`, which is not delegated, after an `expire`. -/
theorem ownPeer_agrees :
    PeerTable.Agrees peerCrypto
      ((Storage.empty.stepPeers 0 (.putPeer ownPeer true true)).runPeers
        [(1, .expire)]).peers ownPeer := by
  refine (reads_agree_iff peerCrypto peerCrypto_normalForm Storage.empty ownPeer (fun _ h =>
    nomatch h) true true
    0).mpr ⟨?_, fun _ => by decide⟩ [(1, .expire)] ?_
  · simp [ownPeer]
  · simp [PeerTable.Op.peers]

/-- A peer of the node `05..05` that the node `00..00` announces for it. -/
def delegatedPeer : PeerInfo where
  publicKey := ValueTable.ownerKey
  nodeId := ⟨List.replicate 32 5, by simp⟩
  origin := Id.zero
  port := 80
  signature :=
    [251, 194, 138, 138, 127, 231, 114, 144, 17, 206, 161, 79, 144, 3, 37, 49, 198, 140, 201, 99,
      38, 61, 3, 238, 8,
     203, 98, 80, 35, 10, 59, 153, 243, 26, 187, 231, 22, 4, 107, 201, 50, 21, 126, 26, 214, 99, 86,
       41, 31, 170,
     141, 142, 122, 147, 115, 0, 123, 88, 145, 77, 49, 48, 48, 13]
  port_ok := fun h => absurd h (by decide)
  signature_ok := rfl

/-- The signature check, for this peer. -/
def delegatedCrypto : Crypto where
  sha256 _ := Id.zero
  verify m sig pk := pk = delegatedPeer.publicKey && sig = delegatedPeer.signature &&
    m = delegatedPeer.getSignData

/-- The table after the delegated peer was stored as persistent. -/
def delegatedTable : PeerTable := PeerTable.putPeer Table.empty 0 delegatedPeer true true

/-- The delegated peer is valid, and `getPeer` finds it. The list of the persistent peers has
another peer in its place, which is not valid and whose ids do not lead to the row. -/
theorem delegatedPeer_not_agrees :
    delegatedPeer.isValid delegatedCrypto = true ∧
    delegatedTable.getPeer delegatedCrypto Node.storedOrder 0 delegatedPeer.publicKey 0 =
      .ok [delegatedPeer] ∧
    (∃ got, delegatedTable.getPersistentPeers delegatedCrypto 0 = .ok [got] ∧
      got.isValid delegatedCrypto = false ∧
      (delegatedTable.updatePeerLastAnnounce 1 got.publicKey got.origin).rows =
        delegatedTable.rows) ∧
    ¬ PeerTable.Agrees delegatedCrypto delegatedTable delegatedPeer := by
  refine ⟨by decide +kernel, by decide +kernel,
    ⟨{ delegatedPeer with origin := delegatedPeer.nodeId }, by decide +kernel, by decide +kernel,
      by decide +kernel⟩, fun h => ?_⟩
  have hread := h.decode (.getPersistentPeers 0)
    (show PeerRow.ofPeer delegatedPeer true 0 0 ∈ delegatedTable.persistentRows 0 by
      decide +kernel) rfl
  exact absurd hread (by decide +kernel)

end Boson
