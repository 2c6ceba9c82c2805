import Boson.Node.Admission
import Boson.SocketAddress.Reserved
import Boson.Task.Unicast

/-!
# Bogon addresses (`LookupTask::addCandidates`, `DHT::received`, `DHT::onAnnouncePeer`)

The node keeps reserved addresses out of its lookups, its announced peers and its routing tables, as
far as `isGlobalUnicast` knows them. The part of a build with `BOSON_DEVELOPMENT` is left out.

* `rejected_iff`: the reserved addresses are rejected everywhere, but for the missed ones.
-/

namespace Boson

open FoldM

/-- No place takes a node with this IP address, whatever its port is. -/
structure Rejected (a : SocketAddress) : Prop where
  notUnicast : a.isGlobalUnicast = some false
  bogon : ∀ b : SocketAddress, b.inaddr = a.inaddr → b.isBogon = some true
  lookups : ∀ (lookup : Lookup) (events : List (UInt64 × LookupTask.LookupEvent))
    (n : CandidateNode), n ∈ ((LookupTask.new lookup).run events).closestCandidates.closest ∨
      n ∈ ((LookupTask.new lookup).run events).closestSet.closest → n.sockaddr.inaddr ≠ a.inaddr
  announcements : ∀ (C : Crypto) (node : Node) (msg : Message) (q : AnnouncePeerRequest),
    msg.origin.inaddr = a.inaddr → node.onAnnouncePeer C msg q = .ok node
  tables : ∀ (C : Crypto) (R : RandomOrder) (T : Printer) (target : Nat → Id) (node : Node)
    (events : List Node.NetworkEvent),
    (∀ type id addr, node.Contact type id addr → addr.inaddr ≠ a.inaddr) →
      ∀ type id addr, (node.run C R T target events).Contact type id addr → addr.inaddr ≠ a.inaddr

namespace Node

variable {self : Node} {msg : Message} {C : Crypto} {R : RandomOrder} {T : Printer}
    {target : Nat → Id}

theorem onAnnouncePeer_of_bogon {q : AnnouncePeerRequest} (h : msg.origin.isBogon = some true) :
    self.onAnnouncePeer C msg q = .ok self := by
  unfold onAnnouncePeer
  rw [isBogon_eq_ok.mpr h]
  rfl

/-- An address that is new in a routing table is no bogon address. -/
theorem run_contact_unicast {P : SocketAddress → Prop}
    (h : ∀ type id addr, self.Contact type id addr → P addr)
    (hP : ∀ addr, addr.isBogon = some false → P addr) (events : List NetworkEvent) :
    ∀ type id addr, (self.run C R T target events).Contact type id addr → P addr := by
  induction events using List.reverseRecOn with
  | nil => exact h
  | append_singleton pre e ih =>
    have hall : AllIn (fun _ _ addr => P addr) (self.run C R T target pre) := allIn_iff.mpr ih
    rw [Node.run, List.foldl_concat]
    exact allIn_iff.mp (hall.step fun _ addr _ hunicast => hP addr hunicast)

end Node

variable {a : SocketAddress}

theorem SocketAddress.Compared.rejected (h : a.Compared) : Rejected a := by
  have hbogon (b : SocketAddress) (hip : b.inaddr = a.inaddr) : b.isBogon = some true :=
    (h.congr hip).isBogon
  refine ⟨SocketAddress.isGlobalUnicast_false_iff.mpr h, hbogon, fun lookup events n hn hip => ?_,
    fun C node msg q hip => Node.onAnnouncePeer_of_bogon
      (hbogon _ hip), fun C R T target node events hnone => ?_⟩
  · have hunicast : LookupTask.isBogonAddress n.sockaddr = false := by
      rcases hn with hn | hn
      · exact (LookupTask.run_unicast lookup events).candidates n hn
      · exact (LookupTask.run_unicast lookup events).closest n hn
    rw [LookupTask.isBogonAddress, hbogon _ hip] at hunicast
    cases hunicast
  · refine Node.run_contact_unicast hnone (fun addr hunicast hip => ?_) events
    rw [hbogon addr hip] at hunicast
    cases hunicast

/-- The reserved addresses are rejected everywhere, but for the missed ones, which `isGlobalUnicast`
takes for the addresses of hosts. -/
theorem rejected_iff (a : SocketAddress) : (a.Reserved → Rejected a) ↔ ¬ a.Missed := by
  constructor
  · intro h hmissed
    exact hmissed.not_compared (SocketAddress.isGlobalUnicast_false_iff.mp
      (h hmissed.reserved).notUnicast)
  · intro hmissed hreserved
    exact (hreserved.compared hmissed).rejected

/-- A multicast address that is in use: `239.255.255.250:1900`. -/
def ssdp : SocketAddress := .inet ⟨[239, 255, 255, 250], rfl⟩ 1900

/-- `fe90::1`. -/
def linkLocalHost : SocketAddress :=
  .inet6 ⟨0xfe :: 0x90 :: List.replicate 13 0 ++ [1], rfl⟩ 39001 0 0

/-- `::ffff:127.0.0.1`. -/
def mappedLoopback : SocketAddress :=
  .inet6 ⟨SocketAddress.MAPPED_IPV4_PREFIX ++ [127, 0, 0, 1], rfl⟩ 39001 0 0

/-- A multicast, a link-local and a mapped address that pass for those of hosts. -/
theorem not_rejected_missed :
    (ssdp.Reserved ∧ ssdp.isBogon = some false ∧ ¬ Rejected ssdp) ∧
      (linkLocalHost.Reserved ∧ linkLocalHost.isBogon = some false ∧ ¬ Rejected linkLocalHost) ∧
      mappedLoopback.Reserved ∧ mappedLoopback.isBogon = some false ∧
        ¬ Rejected mappedLoopback := by
  have hssdp : ssdp.Missed := SocketAddress.missed_inet_iff.mpr (by decide)
  have hlink : linkLocalHost.Missed := SocketAddress.missed_inet6_iff.mpr (.inl (by decide))
  have hmapped : mappedLoopback.Missed := SocketAddress.missed_inet6_iff.mpr (.inr (by decide))
  refine ⟨⟨hssdp.reserved, by decide, fun h => ?_⟩, ⟨hlink.reserved, by decide, fun h => ?_⟩,
    hmapped.reserved, by decide, fun h => ?_⟩
  · exact hssdp.not_compared (SocketAddress.isGlobalUnicast_false_iff.mp h.notUnicast)
  · exact hlink.not_compared (SocketAddress.isGlobalUnicast_false_iff.mp h.notUnicast)
  · exact hmapped.not_compared (SocketAddress.isGlobalUnicast_false_iff.mp h.notUnicast)

end Boson
