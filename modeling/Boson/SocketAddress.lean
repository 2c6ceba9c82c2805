import Boson.Lib.Bytes

/-!
# Socket addresses (`include/boson/socket_address.h`, `src/core/utils/socket_address.cc`)

The address families that the code distinguishes: IPv4, IPv6 and everything else (`empty`, such as
an uninitialised address). `raw` is the `sockaddr` that an address occupies in memory on Linux,
since some functions of the source read the bytes of the whole structure.
-/

namespace Boson

/-- `sa_family_t`: `AF_UNSPEC`, `AF_INET`, `AF_INET6`. -/
inductive Family where
  | unspec
  | inet
  | inet6
  deriving DecidableEq, Repr

/-- The value of the family constant. -/
def Family.toNat : Family → Nat
  | unspec => 0
  | inet => 2
  | inet6 => 10

/-- `SocketAddress`: a `sockaddr_in`, a `sockaddr_in6` or neither. -/
inductive SocketAddress where
  | empty
  | inet (ip : Bytes 4) (port : UInt16)
  | inet6 (ip : Bytes 16) (port : UInt16) (flowinfo scopeId : UInt32)
  deriving DecidableEq

namespace SocketAddress

/-- `SocketAddress::family`. -/
def family : SocketAddress → Family
  | empty => .unspec
  | inet .. => .inet
  | inet6 .. => .inet6

/-- `SocketAddress::operator bool`: the address is initialised. -/
def isValid : SocketAddress → Bool
  | empty => false
  | _ => true

/-- `SocketAddress::port`. -/
def port : SocketAddress → UInt16
  | empty => 0
  | inet _ port => port
  | inet6 _ port _ _ => port

/-- `SocketAddress::inaddr` with `inaddrLength`: the bytes of the IP address. -/
def inaddr : SocketAddress → List UInt8
  | empty => []
  | inet ip _ => ip.data
  | inet6 ip _ _ _ => ip.data

/-- The two bytes of a port in network order. -/
def be16 (x : UInt16) : List UInt8 := [(x >>> 8).toUInt8, x.toUInt8]

/-- The four bytes of a word in host (little-endian) order. -/
def le32 (x : UInt32) : List UInt8 :=
  [x.toUInt8, (x >>> 8).toUInt8, (x >>> 16).toUInt8, (x >>> 24).toUInt8]

theorem be16_injective : Function.Injective be16 := by
  intro x y h
  have hx := x.toNat_lt
  have hy := y.toNat_lt
  simp only [be16, List.cons.injEq, and_true, ← UInt8.toNat_inj, UInt16.toNat_toUInt8,
    UInt16.toNat_shiftRight, Nat.shiftRight_eq_div_pow, UInt16.reduceToNat, Nat.reduceMod,
    Nat.reducePow] at h
  apply UInt16.toNat_inj.mp
  omega

theorem le32_injective : Function.Injective le32 := by
  intro x y h
  have hx := x.toNat_lt
  have hy := y.toNat_lt
  simp only [le32, List.cons.injEq, and_true, ← UInt8.toNat_inj, UInt32.toNat_toUInt8,
    UInt32.toNat_shiftRight, Nat.shiftRight_eq_div_pow, UInt32.reduceToNat, Nat.reduceMod,
    Nat.reducePow] at h
  apply UInt32.toNat_inj.mp
  omega

/-- The `sockaddr_in` or `sockaddr_in6` in memory. -/
def raw : SocketAddress → List UInt8
  | empty => []
  | inet ip port => [2, 0] ++ be16 port ++ ip.data ++ List.replicate 8 0
  | inet6 ip port flowinfo scopeId =>
    [10, 0] ++ be16 port ++ le32 flowinfo ++ ip.data ++ le32 scopeId

/-- `SocketAddress(ip, port)`: throws unless the blob has 4 or 16 bytes. -/
def ofBlob? (ip : List UInt8) (port : UInt16) : Option SocketAddress :=
  match Bytes.ofList? 4 ip with
  | some ip4 => some (.inet ip4 port)
  | none => (Bytes.ofList? 16 ip).map fun ip6 => .inet6 ip6 port 0 0

/-! ## Address classes

The predicates throw `std::domain_error` for an address of neither family; `none` is that case. -/

/-- `SocketAddress::isAnyLocal`. -/
def isAnyLocal : SocketAddress → Option Bool
  | empty => none
  | inet ip _ => some (ip.data.all (· == 0))
  | inet6 ip _ _ _ => some (ip.data.all (· == 0))

/-- `SocketAddress::isLoopback`. -/
def isLoopback : SocketAddress → Option Bool
  | empty => none
  | inet ip _ => some (ip.get 0 == 127)
  | inet6 ip _ _ _ => some (ip.data == List.replicate 15 0 ++ [1])

/-- `SocketAddress::isSiteLocal`. -/
def isSiteLocal : SocketAddress → Option Bool
  | empty => none
  | inet ip _ =>
    let b1 := ip.get 0
    let b2 := ip.get 1
    some (b1 == 10 || (b1 == 172 && (16 ≤ b2 && b2 ≤ 31)) || (b1 == 192 && b2 == 168))
  | inet6 ip _ _ _ => some (ip.get 0 == 0xfc || ip.get 0 == 0xfd)

/-- `SocketAddress::isBroadcast`. -/
def isBroadcast : SocketAddress → Bool
  | inet ip _ => ip.data.all (· == 0xff)
  | _ => false

/-- `SocketAddress::isMulticast`: for IPv4 only the first byte `0xe0` is compared. -/
def isMulticast : SocketAddress → Option Bool
  | empty => none
  | inet ip _ => some (ip.get 0 == 0xe0)
  | inet6 ip _ _ _ => some (ip.get 0 == 0xff)

/-- `SocketAddress::isLinkLocal`. -/
def isLinkLocal : SocketAddress → Option Bool
  | empty => none
  | inet ip _ => some (ip.get 0 == 169 && ip.get 1 == 254)
  | inet6 ip _ _ _ => some (ip.get 0 == 0xfe && ip.get 1 == 0x80)

/-- `MAPPED_IPV4_PREFIX`. -/
def MAPPED_IPV4_PREFIX : List UInt8 := List.replicate 10 0 ++ [0xff, 0xff]

/-- `SocketAddress::isMappedIPv4`: compares the first 12 bytes of the `sockaddr_in6`. -/
def isMappedIPv4 (self : SocketAddress) : Bool :=
  self.family == .inet6 && self.raw.take 12 == MAPPED_IPV4_PREFIX

/-- `SocketAddress::isGlobalUnicast`. -/
def isGlobalUnicast (self : SocketAddress) : Option Bool := do
  if ← self.isAnyLocal then return false
  if ← self.isLinkLocal then return false
  if ← self.isLoopback then return false
  if ← self.isMulticast then return false
  if ← self.isSiteLocal then return false
  return !(self.isMappedIPv4 || self.isBroadcast)

/-- `SocketAddress::isBogon`. A `uint16_t` port is at most `0xffff`. -/
def isBogon (self : SocketAddress) : Option Bool :=
  if self.port > 0 then self.isGlobalUnicast.map (!·) else some true

theorem isGlobalUnicast_isSome {a : SocketAddress} (h : a.isValid = true) :
    a.isGlobalUnicast.isSome = true := by
  cases a with
  | empty => cases h
  | inet ip port =>
    simp only [isGlobalUnicast, isAnyLocal, isLinkLocal, isLoopback, isMulticast, isSiteLocal,
      Option.bind_eq_bind, Option.bind_some]
    repeat' split
    all_goals rfl
  | inet6 ip port flowinfo scopeId =>
    simp only [isGlobalUnicast, isAnyLocal, isLinkLocal, isLoopback, isMulticast, isSiteLocal,
      Option.bind_eq_bind, Option.bind_some]
    repeat' split
    all_goals rfl

/-- `isBogon` never throws on an initialised address, such as the origin of a received packet. -/
theorem isBogon_isSome {a : SocketAddress} (h : a.isValid = true) : a.isBogon.isSome = true := by
  unfold isBogon
  split
  · rw [Option.isSome_map]
    exact isGlobalUnicast_isSome h
  · rfl

end SocketAddress

/-- `Network`: the address family of a DHT. -/
inductive Network where
  | ipv4
  | ipv6
  deriving DecidableEq, Repr

/-- `Network::canUseSocketAddress`. -/
def Network.canUseSocketAddress (self : Network) (addr : SocketAddress) : Bool :=
  addr.family == match self with
    | ipv4 => .inet
    | ipv6 => .inet6

end Boson
