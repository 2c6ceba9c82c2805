import Boson.Lib.Comparator
import Boson.SocketAddress.Mapped
import Boson.Task.Candidates
import Mathlib.Data.List.Lex
import Mathlib.Data.Prod.Lex

/-!
# The orders of addresses (`SocketAddress::operator<`, `SocketAddress::IpCompare`)

Both orders compare the families and then some of the bytes of the `sockaddr_storage` that an
address is. The addresses here are such byte strings, of any family and with any padding.

* `legal_lt`: `operator<` is a strict weak order of all addresses, and takes those for the same that
  `operator==` does.
* `ordersLegal_iff`: `IpCompare` is one of the initialised addresses only. An uninitialised one is
  less than itself.
* `legal_storage_lt`, `legal_ipCompare_iff`: what that means for the addresses of the rest of the
  model, in the map `knownNodes` and in the set of `ClosestCandidates`.
-/

namespace Boson

namespace SocketAddress

/-- A `SocketAddress` in memory on Linux: its only member `ss` is a `sockaddr_storage`. -/
structure Storage where
  ss : Bytes 128
  deriving DecidableEq

namespace Storage

/-- `SocketAddress::family`: the field `ss_family`, in host (little-endian) order. -/
def family (self : Storage) : Nat := (self.ss.get 0).toNat + 256 * (self.ss.get 1).toNat

/-- The bytes that `memcmp(&ss + offset, ..., len)` compares. -/
def slice (self : Storage) (offset len : Nat) : List UInt8 := (self.ss.data.drop offset).take len

/-- `SocketAddress::empty`. -/
def empty (self : Storage) : Bool :=
  self.family ≠ Family.inet.toNat && self.family ≠ Family.inet6.toNat

/-- `SocketAddress::sslen`: the sizes of a `sockaddr_in` and a `sockaddr_in6`. -/
def sslen (family : Nat) : Nat :=
  if family = Family.inet.toNat then 16 else if family = Family.inet6.toNat then 28 else 0

/-- `SocketAddress::inaddr` with `inaddrLength`. -/
def inaddr (self : Storage) : List UInt8 :=
  if self.family = Family.inet.toNat then self.slice 4 4
  else if self.family = Family.inet6.toNat then self.slice 8 16
  else []

/-- `SocketAddress::operator<`. For addresses of neither family no byte is compared. -/
def lt (self o : Storage) : Bool :=
  if self.family ≠ o.family then self.family < o.family
  else self.slice 0 (sslen self.family) < o.slice 0 (sslen self.family)

/-- `SocketAddress::operator==`. -/
def equals (self o : Storage) : Bool :=
  self.family == o.family && self.slice 0 (sslen self.family) == o.slice 0 (sslen self.family)

/-- `SocketAddress::IpCompare`. -/
def ipCompare (a b : Storage) : Bool :=
  if a.empty && b.empty then true
  else if a.family ≠ b.family then a.family < b.family
  else
    let (offset, len) :=
      if a.family = Family.inet.toNat then (4, 4)
      else if a.family = Family.inet6.toNat then (8, 16)
      else (0, 128)
    a.slice offset len < b.slice offset len

/-- The addresses have the same family and the same IP. -/
def SameIp (a b : Storage) : Prop := a.family = b.family ∧ a.inaddr = b.inaddr

open Comparator

variable {a b : Storage} {S : Set Storage}

/-! ## The bytes that are compared -/

/-- A family and bytes, compared in this order. -/
def KeyLt : Nat × List UInt8 → Nat × List UInt8 → Prop := Prod.Lex (· < ·) (· < ·)

instance keyLt_isStrictTotalOrder : IsStrictTotalOrder (Nat × List UInt8) KeyLt where
  trichotomous := Std.Trichotomous.trichotomous (r := Prod.Lex (· < ·) (· < ·))
  irrefl := irrefl_of (Prod.Lex (· < ·) (· < ·))
  trans _ _ _ := trans_of (Prod.Lex (· < ·) (· < ·))

/-- What `operator<` and `operator==` compare. -/
def key (self : Storage) : Nat × List UInt8 := (self.family, self.slice 0 (sslen self.family))

/-- What `IpCompare` compares. -/
def ipKey (self : Storage) : Nat × List UInt8 := (self.family, self.inaddr)

theorem lt_iff_key : a.lt b = true ↔ KeyLt a.key b.key := by
  rw [KeyLt, Prod.lex_iff, key, key, lt]
  split_ifs with hfamily
  · simp [hfamily]
  · rw [not_not] at hfamily
    simp [hfamily]

theorem equals_iff_key : a.equals b = true ↔ a.key = b.key := by
  rw [key, key, Prod.mk.injEq, equals, Bool.and_eq_true, beq_iff_eq, beq_iff_eq]
  refine and_congr_right fun hfamily => ?_
  rw [hfamily]

theorem sameIp_iff_ipKey : a.SameIp b ↔ a.ipKey = b.ipKey := by
  rw [ipKey, ipKey, Prod.mk.injEq, SameIp]

/-- `operator<` is legal for all addresses, and agrees with `operator==`. -/
theorem legal_lt (S : Set Storage) : Legal S lt fun a b => a.equals b = true :=
  .of_key key (fun _ _ _ _ => lt_iff_key) fun _ _ _ _ => equals_iff_key

theorem ipCompare_of_empty (h : a.empty = true) : a.ipCompare a = true := by
  rw [ipCompare, h]
  rfl

theorem family_of_not_empty (h : a.empty = false) :
    a.family = Family.inet.toNat ∨ a.family = Family.inet6.toNat := by
  by_contra hneither
  rw [not_or] at hneither
  simp [empty, hneither] at h

/-- Unless both are uninitialised, the families are compared and then the IPs. -/
theorem ipCompare_eq (h : (a.empty && b.empty) = false) :
    a.ipCompare b = if a.family ≠ b.family then decide (a.family < b.family) else decide
      (a.inaddr < b.inaddr) := by
  rw [ipCompare, if_neg (Bool.eq_false_iff.mp h)]
  by_cases hfamily : a.family = b.family
  · rw [if_neg (not_not.mpr hfamily), if_neg (not_not.mpr hfamily)]
    have ha : a.empty = false := by
      have hsame : b.empty = a.empty := by rw [empty, empty, hfamily]
      rwa [hsame, Bool.and_self] at h
    rcases family_of_not_empty ha with hinet | hinet6
    · simp only [inaddr, ← hfamily, hinet, if_true]
    · simp only [inaddr, ← hfamily, hinet6, Family.toNat, Nat.reduceEqDiff, if_false, if_true]
  · rw [if_pos hfamily, if_pos hfamily]

theorem ipCompare_iff_ipKey (ha : a.empty = false) : a.ipCompare b = true ↔
    KeyLt a.ipKey b.ipKey := by
  rw [KeyLt, Prod.lex_iff, ipKey, ipKey, ipCompare_eq (by rw [ha, Bool.false_and])]
  by_cases hfamily : a.family = b.family
  · simp [hfamily]
  · simp [hfamily]

/-- For every set of addresses: `operator<` is a legal order of it, and `IpCompare` is one exactly
if all of them are initialised. -/
theorem ordersLegal_iff (S : Set Storage) :
    Legal S lt (fun a b => a.equals b = true) ∧
      (Legal S ipCompare SameIp ↔ ∀ a ∈ S, a.empty = false) := by
  refine ⟨legal_lt S, fun h a ha => ?_, fun h => ?_⟩
  · by_contra hempty
    rw [Bool.not_eq_false] at hempty
    have hless := h.irrefl ha
    rw [ipCompare_of_empty hempty] at hless
    cases hless
  · exact .of_key ipKey (fun a ha b _ => ipCompare_iff_ipKey (h a ha)) fun _ _ _ _ =>
      sameIp_iff_ipKey

/-- `SocketAddress()`. -/
def uninitialised : Storage := ⟨Bytes.fill 128 0⟩

/-- An uninitialised address is less than itself, so that it is not the same one as itself. -/
theorem uninitialised_not_legal : uninitialised.ipCompare uninitialised = true ∧
    uninitialised.SameIp uninitialised ∧ ¬ Legal Set.univ ipCompare SameIp := by
  refine ⟨by decide, ⟨rfl, rfl⟩, fun h => ?_⟩
  exact absurd (h.irrefl (Set.mem_univ uninitialised)) (by decide)

end Storage

/-! ## The addresses of the model -/

open Comparator Storage

variable {a b : SocketAddress}

theorem length_raw_le (a : SocketAddress) : a.raw.length ≤ 128 := by
  cases a with
  | empty => exact Nat.zero_le _
  | inet ip port => simp [raw, be16, ip.size_eq]
  | inet6 ip port flowinfo scopeId => simp [raw, be16, le32, ip.size_eq]

/-- An address in memory: all bytes behind its `sockaddr` are zero. -/
def storage (self : SocketAddress) : Storage :=
  ⟨⟨self.raw ++ List.replicate (128 - self.raw.length) 0, by
    have := self.length_raw_le
    rw [List.length_append, List.length_replicate]
    omega⟩⟩

@[simp] theorem storage_family (a : SocketAddress) : a.storage.family = a.family.toNat := by
  cases a <;> rfl

@[simp] theorem storage_empty (a : SocketAddress) : a.storage.empty = !a.isValid := by
  cases a <;> rfl

theorem storage_raw (a : SocketAddress) : a.storage.slice 0 (sslen a.family.toNat) = a.raw := by
  have hlen : sslen a.family.toNat = a.raw.length := by
    cases a with
    | empty => rfl
    | inet ip port => simp [sslen, raw, be16, family, ip.size_eq]
    | inet6 ip port flowinfo scopeId =>
      simp [sslen, raw, be16, le32, family, ip.size_eq, Family.toNat]
  rw [hlen]
  exact List.take_left' rfl

@[simp] theorem storage_inaddr (a : SocketAddress) : a.storage.inaddr = a.inaddr := by
  cases a with
  | empty => rfl
  | inet ip port =>
    show ((ip.data ++ _) ++ _).take 4 = ip.data
    rw [List.append_assoc, List.take_left' ip.size_eq]
  | inet6 ip port flowinfo scopeId =>
    show ((ip.data ++ _) ++ _).take 16 = ip.data
    rw [List.append_assoc, List.take_left' ip.size_eq]

theorem toNat_ne_iff {f g : Family} : f.toNat ≠ g.toNat ↔ f ≠ g := by
  cases f <;> cases g <;> decide

/-- The `ipCompare` of the model is that of the bytes. -/
theorem ipCompare_storage (a b : SocketAddress) : a.storage.ipCompare b.storage =
    a.ipCompare b := by
  rw [SocketAddress.ipCompare]
  by_cases hempty : (!a.isValid && !b.isValid) = true
  · rw [if_pos hempty, Storage.ipCompare, storage_empty, storage_empty, if_pos hempty]
  · rw [if_neg hempty, ipCompare_eq (by simpa using hempty)]
    simp only [storage_family, storage_inaddr, toNat_ne_iff]

theorem raw_injective : Function.Injective raw := by
  intro a b h
  cases a <;> cases b
  case empty.empty => rfl
  case inet.inet ip port ip' port' =>
    obtain ⟨hhead, hip⟩ := List.append_inj (List.append_cancel_right h) rfl
    have hport := be16_injective (List.append_cancel_left hhead)
    rw [hport, Bytes.ext hip]
  case inet6.inet6 ip port flowinfo scopeId ip' port' flowinfo' scopeId' =>
    obtain ⟨h, hscope⟩ := List.append_inj' h rfl
    obtain ⟨h, hip⟩ := List.append_inj h rfl
    obtain ⟨h, hflow⟩ := List.append_inj h rfl
    have hport := be16_injective (List.append_cancel_left h)
    rw [hport, Bytes.ext hip, le32_injective hflow, le32_injective hscope]
  all_goals simp [raw] at h

/-- `operator==` of the model is that of the bytes. -/
theorem equals_storage (a b : SocketAddress) : a.storage.equals b.storage = a.equals b := by
  rw [Storage.equals, SocketAddress.equals, storage_family, storage_family]
  by_cases hfamily : a.family = b.family
  · have hb := b.storage_raw
    rw [← hfamily] at hb
    rw [storage_raw, hb, hfamily]
    simp
  · rw [beq_eq_false_iff_ne.mpr (toNat_ne_iff.mpr hfamily), beq_eq_false_iff_ne.mpr hfamily,
      Bool.false_and, Bool.false_and]

/-- `knownNodes` has one entry for each address: the map takes those for the same that are equal. -/
theorem storage_equals_iff : a.storage.equals b.storage = true ↔ a = b := by
  rw [equals_storage, equals, Bool.and_eq_true, beq_iff_eq, beq_iff_eq]
  constructor
  · rintro ⟨-, hraw⟩
    exact raw_injective hraw
  · rintro rfl
    exact ⟨rfl, rfl⟩

/-- `knownNodes` is a legal map, with one entry for each address. -/
theorem legal_storage_lt (S : Set SocketAddress) :
    Legal S (fun a b => a.storage.lt b.storage) (· = ·) :=
  .of_key (fun a => a.storage.key) (fun _ _ _ _ => lt_iff_key) fun _ _ _ _ =>
    storage_equals_iff.symm.trans equals_iff_key

/-- The set that `ClosestCandidates` keeps of the IPs is legal exactly if all addresses that it gets
are initialised. -/
theorem legal_ipCompare_iff (S : Set SocketAddress) :
    Legal S ipCompare (fun a b => a.family = b.family ∧ a.inaddr = b.inaddr) ↔
      ∀ a ∈ S, a.isValid = true := by
  constructor
  · intro h a ha
    by_contra hinvalid
    have hempty : a.storage.empty = true := by
      rw [storage_empty, Bool.eq_false_iff.mpr hinvalid, Bool.not_false]
    have hless := ipCompare_of_empty hempty
    rw [ipCompare_storage, h.irrefl ha] at hless
    cases hless
  · intro h
    refine .of_key (r := KeyLt) (fun a => a.storage.ipKey) (fun a ha b _ => ?_) fun a _ b _ => ?_
    · rw [← ipCompare_storage]
      exact ipCompare_iff_ipKey (by rw [storage_empty, h a ha, Bool.not_true])
    · rw [ipKey, ipKey, Prod.mk.injEq, storage_family, storage_family, storage_inaddr,
        storage_inaddr]
      exact and_congr_left fun _ => (not_iff_not.mp toNat_ne_iff).symm

end SocketAddress

end Boson
