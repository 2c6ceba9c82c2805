import Boson.SocketAddress

/-!
# IPv4-mapped addresses (`SocketAddress::getMappedIPv4`, `SocketAddress::getMappedIPv6`)

`getMappedIPv6` puts an IPv4 address after the prefix `::ffff`, in the bytes of the IP.
`isMappedIPv4` looks for the prefix at the start of the `sockaddr_in6`, where the family and the
port are.

* `extract_getMappedIPv6`, `getMappedIPv6_extract`: the two conversions agree on where the bytes
  are.
* `not_roundTrips`: no mapped address is recognised, so that none is converted back.
-/

namespace Boson

namespace SocketAddress

/-- `SocketAddress::operator==`: the families are equal, and `memcmp` finds no difference. -/
def equals (self o : SocketAddress) : Bool := self.family == o.family && self.raw == o.raw

/-- The IPv4 address in the last four bytes of an IP. -/
def extract (ip : Bytes 16) (port : UInt16) : SocketAddress :=
  .inet ⟨ip.data.drop MAPPED_IPV4_PREFIX.length, by rw [List.length_drop, ip.size_eq]; rfl⟩ port

/-- `SocketAddress::getMappedIPv4`. -/
def getMappedIPv4 (self : SocketAddress) : SocketAddress :=
  if !self.isMappedIPv4 then self
  else
    match self with
    | inet6 ip port _ _ => extract ip port
    -- the address is one of IPv6
    | _ => self

/-- `SocketAddress::getMappedIPv6`. The new address has no flow and no scope. -/
def getMappedIPv6 : SocketAddress → SocketAddress
  | inet ip port =>
    .inet6 ⟨MAPPED_IPV4_PREFIX ++ ip.data, by rw [List.length_append, ip.size_eq]; rfl⟩ port 0 0
  | self => self

/-- The mapped address of `a` is an IPv6 address with its port, it is recognised and converted back
to `a`. -/
structure RoundTrips (a : SocketAddress) : Prop where
  family : a.getMappedIPv6.family = .inet6
  port : a.getMappedIPv6.port = a.port
  mapped : a.getMappedIPv6.isMappedIPv4 = true
  back : a.getMappedIPv6.getMappedIPv4.equals a = true

/-- The first byte that is compared is one of `sin6_family`, which is not 0. -/
theorem isMappedIPv4_eq_false (a : SocketAddress) : a.isMappedIPv4 = false := by
  cases a with
  | empty => rfl
  | inet ip port => rfl
  | inet6 ip port flowinfo scopeId => simp [isMappedIPv4, raw, MAPPED_IPV4_PREFIX]

theorem getMappedIPv4_eq (a : SocketAddress) : a.getMappedIPv4 = a := by
  unfold getMappedIPv4
  rw [isMappedIPv4_eq_false]
  exact if_pos rfl

/-- The bytes that `getMappedIPv6` writes are those that `getMappedIPv4` reads. -/
theorem extract_getMappedIPv6 (ip : Bytes 4) (port : UInt16) : ∃ mapped : Bytes 16,
    (inet ip port).getMappedIPv6 = .inet6 mapped port 0 0 ∧
      mapped.data = MAPPED_IPV4_PREFIX ++ ip.data ∧
      extract mapped port = .inet ip port := by
  refine ⟨_, rfl, rfl, ?_⟩
  simp [extract]

/-- An address with the prefix is the mapped address of the IPv4 address in it. -/
theorem getMappedIPv6_extract {ip : Bytes 16} (h : ip.data.take 12 = MAPPED_IPV4_PREFIX)
    (port : UInt16) :
    (extract ip port).getMappedIPv6 = .inet6 ip port 0 0 := by
  have hdata : MAPPED_IPV4_PREFIX ++ ip.data.drop 12 = ip.data := by rw [← h, List.take_append_drop]
  rw [extract, getMappedIPv6, inet6.injEq]
  exact ⟨Bytes.ext hdata, rfl, rfl, rfl⟩

/-- No address is recognised, so that for no IPv4 address the mapped one is converted back. -/
theorem not_roundTrips (ip : Bytes 4) (port : UInt16) (b : SocketAddress) :
    ¬ RoundTrips (.inet ip port) ∧ b.isMappedIPv4 = false := by
  refine ⟨fun h => ?_, isMappedIPv4_eq_false b⟩
  have hmapped := h.mapped
  rw [isMappedIPv4_eq_false] at hmapped
  cases hmapped

/-- `8.8.8.8:39001` as IPv6 is not recognised, and stays an IPv6 address. -/
theorem not_roundTrips_dns : (inet ⟨[8, 8, 8, 8], rfl⟩ 39001).getMappedIPv6.isMappedIPv4 = false ∧
    (inet ⟨[8, 8, 8, 8], rfl⟩ 39001).getMappedIPv6.getMappedIPv4.family = .inet6 ∧
      ¬ RoundTrips (.inet ⟨[8, 8, 8, 8], rfl⟩ 39001) := by
  refine ⟨isMappedIPv4_eq_false _, by rw [getMappedIPv4_eq]; rfl, fun h => ?_⟩
  have hmapped := h.mapped
  rw [isMappedIPv4_eq_false] at hmapped
  cases hmapped

end SocketAddress

end Boson
