import Boson.Node.Received

/-!
# Failures and responses (`DHT::received`, `KBucketEntry::merge`)

A response is noted in a new entry, which is then put into the table. If the node is in the table,
the new entry is merged into the old one, and the merge takes over its count of failures only if
that is not 0.

* `DHT.receive_answered`: the entry after the answer to a call. Its count of failures is the old
  one.
* `DHT.answered_not_eligible`: a node that failed three times is not handed out again.
* `Node.clearsFailures_iff`: exactly when the entry is as a response should leave it.
-/

namespace Boson

namespace KBucketEntry

variable {old : KBucketEntry} {msg : Message}

/-- What the merge with the entry of a response does: everything is taken over but the failures. -/
theorem merge_senderEntry (hid : old.nodeId = msg.id) (haddr : old.sockaddr = msg.origin)
    (now : UInt64) (c : AnsweredCall) :
    (old.merge (DHT.senderEntry now msg (some c))).failedRequests = old.failedRequests ∧
      (old.merge (DHT.senderEntry now msg (some c))).reachable = true ∧
      (old.merge (DHT.senderEntry now msg (some c))).lastSeen =
        if old.lastSeen ≤ now then now else old.lastSeen := by
  have heq : old.equals (DHT.senderEntry now msg (some c)).toNodeInfo = true := by
    simp [NodeInfo.equals, hid, haddr]
  rw [merge, if_pos heq]
  refine ⟨rfl, by simp [DHT.senderEntry, signalResponse, mergeRequestTime], rfl⟩

end KBucketEntry

namespace DHT

variable {self : DHT} {msg : Message} {c : AnsweredCall} {old : KBucketEntry}

/-- The entry of a node of the table after its answer to a call: it stays as it was if the address
is bogon or known under another id, and else takes the news of the answer. -/
theorem receive_answered (ht : self.routingTable.Tidy)
    (hold : self.routingTable.getEntry msg.id = some old) (haddr : old.sockaddr = msg.origin)
    (hmatches : c.matchesAddress = true ∧ c.matchesId = true) (now : UInt64) :
    (self.receive now msg (some c)).2.routingTable.getEntry msg.id =
      some (if msg.origin.isBogon = some false ∧ self.impostor msg.origin msg.id = none then
        old.merge (senderEntry now msg (some c)) else old) := by
  obtain ⟨hnot, heq⟩ | ⟨-, known, himp, heq⟩ | ⟨hreaches, himp, dht, heq, hdht⟩ :=
    self.receive_cases now msg (some c)
  · have hbogon : msg.origin.isBogon ≠ some false := by
      refine fun hbogon => hnot ⟨hbogon, fun c' hc' => ?_, fun x hx hid => ?_⟩
      · obtain rfl := Option.some.inj hc'
        exact hmatches
      · have hx := (RoutingTable.getEntry_eq_some_iff self.table_ok).mpr ⟨hx, hid⟩
        rw [hold] at hx
        rw [← Option.some.inj hx, haddr]
    rw [heq, if_neg (fun h => hbogon h.1)]
    exact hold
  · rw [heq, himp, if_neg (by simp)]
    exact RoutingTable.getEntry_remove self.table_ok hold (impostor_ne himp)
  · obtain rfl | ⟨hnone, -⟩ := hdht
    · obtain ⟨T', hput, hentry⟩ := RoutingTable.put_merges self.table_ok ht
        (e := senderEntry now msg (some c)) (by simpa using hold) (by simpa using haddr) now
      have hafter := (self.put_routingTable now (senderEntry now msg (some c))).symm.trans hput
      rw [heq, if_pos ⟨hreaches.unicast, himp⟩]
      dsimp only
      rw [put_setKnown_routingTable, Option.some.inj hafter]
      simpa using hentry
    · cases hnone

/-- A node that failed three times is not handed out again, however often it answers. -/
theorem answered_not_eligible (ht : self.routingTable.Tidy)
    (hold : self.routingTable.getEntry msg.id = some old) (haddr : old.sockaddr = msg.origin)
    (hmatches : c.matchesAddress = true ∧ c.matchesId = true) (hfailed : 3 ≤ old.failedRequests)
    (now : UInt64) :
    ∃ e, (self.receive now msg (some c)).2.routingTable.getEntry msg.id = some e ∧
      3 ≤ e.failedRequests ∧ e.isEligibleForNodesList = false := by
  have hid := ((RoutingTable.getEntry_eq_some_iff self.table_ok).mp hold).2
  refine ⟨_, receive_answered ht hold haddr hmatches now, ?_⟩
  have hcount :
      3 ≤ (if msg.origin.isBogon = some false ∧ self.impostor msg.origin msg.id = none then
      old.merge (senderEntry now msg (some c)) else old).failedRequests := by
    split_ifs
    · rw [(KBucketEntry.merge_senderEntry hid haddr now c).1]
      exact hfailed
    · exact hfailed
  exact ⟨hcount, by simp [KBucketEntry.isEligibleForNodesList, Int.not_lt.mpr hcount]⟩

end DHT

namespace Node

/-- `DHT::received` of a response leaves the entry of the sender as one of a node that just
answered. -/
def ClearsFailures (self : Node) (type : Network) (dht : DHT) (msg : Message)
    (c : AnsweredCall) : Prop :=
  ∃ after dht' e, self.received type dht msg (some c) = .ok after ∧ after.getDHT type = some dht' ∧
    dht'.routingTable.getEntry msg.id = some e ∧
      e.failedRequests = 0 ∧ e.reachable = true ∧ e.lastSeen = self.now

variable {self : Node} {type : Network} {dht : DHT} {msg : Message} {c : AnsweredCall}
    {old : KBucketEntry}

/-- A node of the table answers a call that was made for it, from the address that it has there. Its
entry is that of a node that just answered exactly if it had no failures before, and the answer was
taken over (the address is public and not known under the id of another node of the table, and the
clock was not set back), or it was seen at the same time. -/
theorem clearsFailures_iff {localId : Id} (hdht : self.getDHT type = some dht)
    (hreachable : RoutingTable.Reachable localId dht.routingTable)
    (hold : dht.routingTable.getEntry msg.id = some old) (haddr : old.sockaddr = msg.origin)
    (hmatches : c.matchesAddress = true ∧ c.matchesId = true) :
    self.ClearsFailures type dht msg c ↔ old.failedRequests = 0 ∧
      (msg.origin.isBogon = some false ∧ dht.impostor msg.origin msg.id = none ∧
        old.lastSeen ≤ self.now ∨
        msg.origin.isBogon ≠ none ∧ old.lastSeen = self.now) := by
  by_cases hbogon : msg.origin.isBogon = none
  · simp [ClearsFailures, received, isBogon, hbogon, bind, Except.bind]
  -- the entry after the response
  obtain ⟨hmem, hid⟩ := (RoutingTable.getEntry_eq_some_iff dht.table_ok).mp hold
  obtain ⟨b, hb, hin⟩ := List.mem_flatMap.mp hmem
  have hreach : old.reachable = true := (hreachable.tidy b hb).reachable old hin
  obtain ⟨after, hafter⟩ : ∃ after, self.received type dht msg (some c) = .ok after :=
    received_ok hbogon
  have hentry := DHT.receive_answered hreachable.tidy hold haddr hmatches self.now
  have hclears : self.ClearsFailures type dht msg c ↔ ∃ e,
      (dht.receive self.now msg (some c)).2.routingTable.getEntry msg.id = some e ∧
        e.failedRequests = 0 ∧ e.reachable = true ∧ e.lastSeen = self.now := by
    have hget := received_receive hdht hafter type
    rw [getDHT_setDHT] at hget
    constructor
    · rintro ⟨after', dht', e, hafter', hdht', he⟩
      obtain rfl := Except.ok.inj (hafter.symm.trans hafter')
      rw [hget] at hdht'
      cases hdht'
      exact ⟨e, he⟩
    · rintro ⟨e, he⟩
      exact ⟨after, _, e, hafter, hget, he⟩
  obtain ⟨hfailed, hreach', hseen⟩ := KBucketEntry.merge_senderEntry hid haddr self.now c
  rw [hclears, hentry]
  split_ifs with htaken
  · simp only [Option.some.injEq, exists_eq_left', hfailed, hreach', hseen, htaken, true_and, ne_eq]
    refine and_congr_right fun _ => ?_
    split_ifs with hle
    · simp [hle]
    · simp [hle]
  · simp only [Option.some.injEq, exists_eq_left', hreach, true_and]
    refine and_congr_right fun _ => ⟨fun h => .inr ⟨hbogon, h⟩, ?_⟩
    rintro (⟨hpublic, himp, -⟩ | ⟨-, h⟩)
    · exact absurd ⟨hpublic, himp⟩ htaken
    · exact h

/-- The node `MAX_ID` answers a call. -/
def patientReply : Message :=
  { id := Id.MAX_ID, origin := .inet ⟨[93, 184, 216, 48], by simp⟩ 39001, content := .pingResponse }

/-- A DHT that it answered, and whose next `timeouts` calls to it timed out. -/
def patientHost (timeouts : Nat) : DHT :=
  ((DHT.create Id.zero (.inet ⟨[93, 184, 216, 49], by simp⟩ 39001)).start 0 none).run
    (.received 0 patientReply (some ⟨true, true, 0⟩) ::
      List.replicate timeouts (.operate 0 (.onTimeout Id.MAX_ID)))

theorem patientReply_clears :
    ({ inetNode with dht4 := some (patientHost 0) } : Node).ClearsFailures .ipv4
    (patientHost 0) patientReply
      ⟨true, true, 0⟩ := by
  have hentry : ((patientHost 0).routingTable.getEntry patientReply.id).any (fun e =>
      decide (e.sockaddr = patientReply.origin ∧ e.failedRequests = 0 ∧
        e.lastSeen = 0)) = true := by
    decide +kernel
  obtain ⟨old, hold, hfields⟩ := (Option.any_eq_true _ _).mp hentry
  obtain ⟨haddr, hfailed, hseen⟩ := of_decide_eq_true hfields
  exact (clearsFailures_iff rfl (DHT.run_reachable _ _ _ _ _) hold haddr ⟨rfl, rfl⟩).mpr
    ⟨hfailed, .inr ⟨by decide, hseen⟩⟩

/-- It answers after a timeout: the timeout is still counted. -/
theorem patientReply_not_clears :
    (∃ old, (patientHost 1).routingTable.getEntry patientReply.id = some old ∧
        old.sockaddr = patientReply.origin) ∧
      ¬ ({ inetNode with dht4 := some (patientHost 1) } : Node).ClearsFailures .ipv4
        (patientHost 1) patientReply
        ⟨true, true, 0⟩ := by
  have hentry : ((patientHost 1).routingTable.getEntry patientReply.id).map (·.sockaddr) =
      some patientReply.origin := by decide +kernel
  have hafter :
      (((patientHost 1).receive 0 patientReply (some ⟨true, true, 0⟩)).2.routingTable.getEntry
      patientReply.id).map (·.failedRequests) = some 1 := by decide +kernel
  refine ⟨Option.map_eq_some_iff.mp hentry, ?_⟩
  rintro ⟨after, dht', e, hreceived, hdht', he, hfailed, -⟩
  have hget := received_receive rfl hreceived .ipv4
  rw [getDHT_setDHT, hdht', Option.some.injEq] at hget
  rw [hget] at he
  rw [show Node.now _ = 0 from rfl] at he
  rw [he, Option.map_some, hfailed] at hafter
  cases hafter

end Node

end Boson
