import Boson.Lib.Cidr
import Boson.SocketAddress.Mapped

/-!
# Reserved addresses (`SocketAddress::isAnyLocal` to `SocketAddress::isBogon`)

The addresses that name no host on the public internet are given by their blocks. Each predicate of
the source is compared with the blocks that it stands for.

* `isGlobalUnicast_false_iff_reserved`: the reserved addresses that `isGlobalUnicast` takes for
  those of a host are `225.0.0.0` to `239.255.255.255`, the part of `fe80::/10` outside of
  `fe80::/16`, and the IPv4-mapped ones.
-/

namespace Boson

namespace SocketAddress

/-- `0.0.0.0` and `::`. -/
def unspecified : List Cidr := [.single [0, 0, 0, 0], .single (List.replicate 16 0)]

/-- `127.0.0.0/8` and `::1`. -/
def loopback : List Cidr := [⟨[127, 0, 0, 0], 8⟩, Cidr.single (List.replicate 15 0 ++ [1])]

/-- `10.0.0.0/8`, `172.16.0.0/12`, `192.168.0.0/16` and `fc00::/7`. -/
def siteLocal : List Cidr :=
  [⟨[10, 0, 0, 0], 8⟩, ⟨[172, 16, 0, 0], 12⟩, ⟨[192, 168, 0, 0], 16⟩,
    ⟨0xfc :: List.replicate 15 0, 7⟩]

/-- `169.254.0.0/16` and `fe80::/10`. -/
def linkLocal : List Cidr := [⟨[169, 254, 0, 0], 16⟩, ⟨0xfe :: 0x80 :: List.replicate 14 0, 10⟩]

/-- `224.0.0.0/4` and `ff00::/8`. -/
def multicast : List Cidr := [⟨[224, 0, 0, 0], 4⟩, ⟨0xff :: List.replicate 15 0, 8⟩]

/-- `255.255.255.255`. -/
def broadcast : List Cidr := [.single [255, 255, 255, 255]]

/-- `::ffff:0:0/96`. -/
def mappedIPv4 : List Cidr := [⟨MAPPED_IPV4_PREFIX ++ [0, 0, 0, 0], 96⟩]

/-- The part of `linkLocal` that `isLinkLocal` compares with. -/
def comparedLinkLocal : List Cidr :=
  [⟨[169, 254, 0, 0], 16⟩, ⟨0xfe :: 0x80 :: List.replicate 14 0, 16⟩]

/-- The part of `multicast` that `isMulticast` compares with. -/
def comparedMulticast : List Cidr := [⟨[224, 0, 0, 0], 8⟩, ⟨0xff :: List.replicate 15 0, 8⟩]

/-- The IP address is in one of the blocks. -/
def In (self : SocketAddress) (blocks : List Cidr) : Prop :=
  ∃ block ∈ blocks, block.Contains self.inaddr

/-- The address of no host on the public internet. -/
def Reserved (self : SocketAddress) : Prop :=
  self.In (unspecified ++ loopback ++ siteLocal ++ linkLocal ++ multicast ++
    broadcast ++ mappedIPv4)

/-- A reserved address that no predicate compares with. -/
def Missed (self : SocketAddress) : Prop :=
  self.In multicast ∧ ¬ self.In comparedMulticast ∨
    self.In linkLocal ∧ ¬ self.In comparedLinkLocal ∨ self.In mappedIPv4

variable {a : SocketAddress} {blocks blocks' : List Cidr}

theorem in_append : a.In (blocks ++ blocks') ↔ a.In blocks ∨ a.In blocks' := by
  simp only [In, List.mem_append]
  constructor
  · rintro ⟨block, hblock | hblock, h⟩
    · exact .inl ⟨block, hblock, h⟩
    · exact .inr ⟨block, hblock, h⟩
  · rintro (⟨block, hblock, h⟩ | ⟨block, hblock, h⟩)
    · exact ⟨block, .inl hblock, h⟩
    · exact ⟨block, .inr hblock, h⟩

theorem in_cons {block : Cidr} : a.In (block :: blocks) ↔
    block.Contains a.inaddr ∨ a.In blocks := by
  simp [In]

theorem not_in_nil : ¬ a.In [] := by simp [In]

theorem reserved_iff : a.Reserved ↔
    a.In unspecified ∨ a.In loopback ∨ a.In siteLocal ∨ a.In linkLocal ∨
    a.In multicast ∨ a.In broadcast ∨ a.In mappedIPv4 := by
  simp only [Reserved, in_append, or_assoc]

theorem Missed.reserved (h : a.Missed) : a.Reserved := by
  rw [reserved_iff]
  rcases h with ⟨h, -⟩ | ⟨h, -⟩ | h
  · exact .inr (.inr (.inr (.inr (.inl h))))
  · exact .inr (.inr (.inr (.inl h)))
  · exact .inr (.inr (.inr (.inr (.inr (.inr h)))))

theorem contains_get_iff {n length : Nat} {base : List UInt8} {ip : Bytes n} :
    (⟨base, length⟩ : Cidr).Contains ip.data ↔
      n = base.length ∧ (∀ j < length / 8, ip.get j = base.getD j 0) ∧
      (ip.get (length / 8)).toNat / 2 ^ (8 - length % 8) =
      (base.getD (length / 8) 0).toNat / 2 ^ (8 - length % 8) := by
  rw [Cidr.contains_iff, ip.size_eq]
  rfl

@[simp] theorem get_toNat_lt {n : Nat} (ip : Bytes n) (j : Nat) : (ip.get j).toNat < 256 :=
  (ip.get j).toNat_lt

theorem data_ne {n : Nat} {ip : Bytes n} {l : List UInt8} (h : l.length ≠ n) : ip.data ≠ l := by
  rintro rfl
  exact h ip.size_eq

theorem all_beq_iff {n : Nat} {ip : Bytes n} {x : UInt8} :
    ip.data.all (· == x) = true ↔ ip.data = List.replicate n x := by
  rw [List.eq_replicate_iff]
  simp [ip.size_eq]

theorem not_in_empty (h : ∀ block ∈ blocks, block.base ≠ []) : ¬ empty.In blocks := by
  rintro ⟨block, hblock, hlength, -⟩
  exact h block hblock (List.length_eq_zero_iff.mp hlength.symm)

/-! ## The predicates of the source -/

theorem isAnyLocal_iff : a.isAnyLocal = some true ↔ a.In unspecified := by
  cases a with
  | empty => simp [isAnyLocal, not_in_empty, unspecified, Cidr.single]
  | inet ip port =>
    rw [isAnyLocal, Option.some.injEq, all_beq_iff]
    simp [In, unspecified, inaddr, data_ne]
  | inet6 ip port flowinfo scopeId =>
    rw [isAnyLocal, Option.some.injEq, all_beq_iff]
    simp [In, unspecified, inaddr, data_ne]

theorem isLoopback_iff : a.isLoopback = some true ↔ a.In loopback := by
  cases a with
  | empty => simp [isLoopback, not_in_empty, loopback, Cidr.single]
  | inet ip port => simp [isLoopback, In, loopback, inaddr, contains_get_iff, data_ne]
  | inet6 ip port flowinfo scopeId => simp [isLoopback, In, loopback, inaddr, contains_get_iff]

theorem isSiteLocal_iff : a.isSiteLocal = some true ↔ a.In siteLocal := by
  cases a with
  | empty => simp [isSiteLocal, not_in_empty, siteLocal]
  | inet ip port =>
    have h172 : 16 ≤ ip.get 1 ∧ ip.get 1 ≤ 31 ↔ (ip.get 1).toNat / 16 = 1 := by
      simp only [UInt8.le_iff_toNat_le, UInt8.reduceToNat]
      omega
    simp only [siteLocal, in_cons, not_in_nil, inaddr, contains_get_iff, Nat.reduceDiv,
      Nat.forall_lt_succ_right]
    simp [isSiteLocal, ← h172, or_assoc]
  | inet6 ip port flowinfo scopeId =>
    have hfc : ip.get 0 = 252 ∨ ip.get 0 = 253 ↔ (ip.get 0).toNat / 2 = 126 := by
      simp only [← UInt8.toNat_inj, UInt8.reduceToNat]
      omega
    simp [isSiteLocal, In, siteLocal, inaddr, contains_get_iff, ← hfc]

theorem isLinkLocal_iff : a.isLinkLocal = some true ↔ a.In comparedLinkLocal := by
  cases a with
  | empty => simp [isLinkLocal, not_in_empty, comparedLinkLocal]
  | inet ip port =>
    simp only [comparedLinkLocal, in_cons, not_in_nil, inaddr, contains_get_iff, Nat.reduceDiv,
      Nat.forall_lt_succ_right]
    simp [isLinkLocal]
  | inet6 ip port flowinfo scopeId =>
    simp only [comparedLinkLocal, in_cons, not_in_nil, inaddr, contains_get_iff, Nat.reduceDiv,
      Nat.forall_lt_succ_right]
    simp [isLinkLocal]

theorem isMulticast_iff : a.isMulticast = some true ↔ a.In comparedMulticast := by
  cases a with
  | empty => simp [isMulticast, not_in_empty, comparedMulticast]
  | inet ip port => simp [isMulticast, In, comparedMulticast, inaddr, contains_get_iff]
  | inet6 ip port flowinfo scopeId =>
    simp [isMulticast, In, comparedMulticast, inaddr, contains_get_iff]

theorem isBroadcast_iff : a.isBroadcast = true ↔ a.In broadcast := by
  cases a with
  | empty => simp [isBroadcast, not_in_empty, broadcast, Cidr.single]
  | inet ip port =>
    rw [isBroadcast, all_beq_iff]
    simp [In, broadcast, inaddr]
  | inet6 ip port flowinfo scopeId => simp [isBroadcast, In, broadcast, inaddr, data_ne]

/-! ## Which reserved addresses are missed -/

/-- One of the predicates that `isGlobalUnicast` asks is true. -/
def Compared (self : SocketAddress) : Prop :=
  self.In unspecified ∨ self.In comparedLinkLocal ∨ self.In loopback ∨ self.In comparedMulticast ∨
    self.In siteLocal ∨ self.In broadcast

theorem exists_answers (h : a.isValid = true) : ∃ anyLocal linkLocal loopback multicast siteLocal,
    a.isAnyLocal = some anyLocal ∧ a.isLinkLocal = some linkLocal ∧ a.isLoopback = some loopback ∧
      a.isMulticast = some multicast ∧ a.isSiteLocal = some siteLocal := by
  cases a with
  | empty => cases h
  | inet => exact ⟨_, _, _, _, _, rfl, rfl, rfl, rfl, rfl⟩
  | inet6 => exact ⟨_, _, _, _, _, rfl, rfl, rfl, rfl, rfl⟩

theorem isGlobalUnicast_false_iff : a.isGlobalUnicast = some false ↔ a.Compared := by
  unfold Compared
  rw [← isAnyLocal_iff, ← isLinkLocal_iff, ← isLoopback_iff, ← isMulticast_iff, ← isSiteLocal_iff,
    ← isBroadcast_iff]
  by_cases hvalid : a.isValid = true
  · obtain ⟨anyLocal, linkLocal, loopback, multicast, siteLocal, h1, h2, h3, h4, h5⟩ :=
      exists_answers hvalid
    simp only [isGlobalUnicast, h1, h2, h3, h4, h5, isMappedIPv4_eq_false, Option.bind_eq_bind,
      Option.bind_some]
    cases anyLocal <;> cases linkLocal <;> cases loopback <;> cases multicast <;> cases
      siteLocal <;> simp
  · cases a with
    | empty =>
      simp [isGlobalUnicast, isAnyLocal, isLinkLocal, isLoopback, isMulticast, isSiteLocal,
        isBroadcast]
    | _ => exact absurd rfl hvalid

/-- The missed addresses of IPv4: `225.0.0.0` to `239.255.255.255`. -/
theorem missed_inet_iff {ip : Bytes 4} {port : UInt16} :
    (inet ip port).Missed ↔ 225 ≤ ip.get 0 ∧ ip.get 0 ≤ 239 := by
  have h224 : (ip.get 0).toNat / 16 = 14 ∧ ip.get 0 ≠ 224 ↔ 225 ≤ ip.get 0 ∧ ip.get 0 ≤ 239 := by
    simp only [UInt8.le_iff_toNat_le, UInt8.reduceToNat, ne_eq, ← UInt8.toNat_inj]
    omega
  simp only [Missed, in_cons, not_in_nil, inaddr, multicast, comparedMulticast, linkLocal,
    comparedLinkLocal, mappedIPv4, contains_get_iff, Nat.reduceDiv, Nat.forall_lt_succ_right]
  simp [MAPPED_IPV4_PREFIX, ← h224, -not_and]

/-- The missed addresses of IPv6: the rest of `fe80::/10`, and `::ffff:0:0/96`. -/
theorem missed_inet6_iff {ip : Bytes 16} {port : UInt16} {flowinfo scopeId : UInt32} :
    (inet6 ip port flowinfo scopeId).Missed ↔
      ip.get 0 = 0xfe ∧ 0x81 ≤ ip.get 1 ∧ ip.get 1 ≤ 0xbf ∨
        ∀ i < 12, ip.get i = MAPPED_IPV4_PREFIX.getD i 0 := by
  have h80 : (ip.get 1).toNat / 64 = 2 ∧ ip.get 1 ≠ 0x80 ↔ 0x81 ≤ ip.get 1 ∧ ip.get 1 ≤ 0xbf := by
    simp only [UInt8.le_iff_toNat_le, UInt8.reduceToNat, ne_eq, ← UInt8.toNat_inj]
    omega
  simp only [Missed, in_cons, not_in_nil, inaddr, multicast, comparedMulticast, linkLocal,
    comparedLinkLocal, mappedIPv4, contains_get_iff, Nat.reduceDiv, Nat.forall_lt_succ_right]
  simp [MAPPED_IPV4_PREFIX, ← h80]
  refine or_congr_left ?_
  rw [and_assoc]
  exact and_congr_right fun h => and_congr_right fun _ => ⟨fun hne => hne h, fun hne _ => hne⟩

theorem get_of_data {n : Nat} {ip : Bytes n} {l : List UInt8} (h : ip.data = l) (i : Nat) :
    ip.get i = l.getD i 0 := by
  rw [Bytes.get, h]

theorem Missed.not_compared (h : a.Missed) : ¬ a.Compared := by
  cases a with
  | empty =>
    simp [Compared, not_in_empty, unspecified, comparedLinkLocal, loopback, comparedMulticast,
      siteLocal, broadcast, Cidr.single]
  | inet ip port =>
    have hget := missed_inet_iff.mp h
    simp only [UInt8.le_iff_toNat_le, UInt8.reduceToNat] at hget
    have hne (x : UInt8) (hx : x.toNat < 225 ∨ 239 < x.toNat) : ip.get 0 ≠ x := by
      rintro rfl
      omega
    have hdata (l : List UInt8)
        (hl : (l.getD 0 0).toNat < 225 ∨ 239 < (l.getD 0 0).toNat) : ip.data ≠ l :=
      fun hd => hne _ hl (get_of_data hd 0)
    simp only [Compared, in_cons, not_in_nil, inaddr, unspecified, comparedLinkLocal, loopback,
      comparedMulticast,
      siteLocal, broadcast, Cidr.contains_single_iff, contains_get_iff, Nat.reduceDiv,
        Nat.forall_lt_succ_right]
    simp [hne, hdata]
  | inet6 ip port flowinfo scopeId =>
    simp only [Compared, in_cons, not_in_nil, inaddr, unspecified, comparedLinkLocal, loopback,
      comparedMulticast,
      siteLocal, broadcast, Cidr.contains_single_iff, contains_get_iff, Nat.reduceDiv,
        Nat.forall_lt_succ_right]
    rcases missed_inet6_iff.mp h with ⟨h0, h1, -⟩ | hmapped
    · have hdata (l : List UInt8) (hl : l.getD 0 0 ≠ 0xfe) : ip.data ≠ l :=
        fun hd => hl ((get_of_data hd 0).symm.trans h0)
      have h80 : ip.get 1 ≠ 0x80 := by
        intro hb
        rw [hb] at h1
        exact absurd h1 (by decide)
      simp [hdata, h0, h80]
    · have h0 : ip.get 0 = 0 := hmapped 0 (by decide)
      have hdata (l : List UInt8) (hl : l.getD 10 0 ≠ 0xff) : ip.data ≠ l :=
        fun hd => hl ((get_of_data hd 10).symm.trans (hmapped 10 (by decide)))
      simp [hdata, h0]

theorem Compared.reserved (h : a.Compared) : a.Reserved := by
  rw [reserved_iff]
  rcases h with h | h | h | h | h | h
  · exact .inl h
  · refine .inr (.inr (.inr (.inl ?_)))
    rcases in_cons.mp h with h | h
    · exact in_cons.mpr (.inl h)
    · have h := (in_cons.mp h).resolve_right not_in_nil
      exact in_cons.mpr (.inr (in_cons.mpr (.inl (h.mono (by decide)))))
  · exact .inr (.inl h)
  · refine .inr (.inr (.inr (.inr (.inl ?_))))
    rcases in_cons.mp h with h | h
    · exact in_cons.mpr (.inl (h.mono (by decide)))
    · exact in_cons.mpr (.inr h)
  · exact .inr (.inr (.inl h))
  · exact .inr (.inr (.inr (.inr (.inr (.inl h)))))

theorem Reserved.compared (h : a.Reserved) (hmissed : ¬ a.Missed) : a.Compared := by
  rw [Missed, not_or, not_or, not_and_not_right, not_and_not_right] at hmissed
  obtain ⟨hmulticast, hlink, hmapped⟩ := hmissed
  rcases reserved_iff.mp h with h | h | h | h | h | h | h
  · exact .inl h
  · exact .inr (.inr (.inl h))
  · exact .inr (.inr (.inr (.inr (.inl h))))
  · exact .inr (.inl (hlink h))
  · exact .inr (.inr (.inr (.inl (hmulticast h))))
  · exact .inr (.inr (.inr (.inr (.inr h))))
  · exact absurd h hmapped

/-- What `isGlobalUnicast` takes for the address of no host: the reserved addresses but the missed
ones. -/
theorem isGlobalUnicast_false_iff_reserved : a.isGlobalUnicast = some false ↔
    a.Reserved ∧ ¬ a.Missed := by
  rw [isGlobalUnicast_false_iff]
  exact ⟨fun h => ⟨h.reserved, fun hmissed => hmissed.not_compared h⟩, fun h => h.1.compared h.2⟩

/-- The class of an address does not depend on its port. -/
theorem Compared.congr {b : SocketAddress} (h : a.Compared)
    (hip : b.inaddr = a.inaddr) : b.Compared := by
  simpa only [Compared, In, hip] using h

theorem Compared.isBogon (h : a.Compared) : a.isBogon = some true := by
  unfold SocketAddress.isBogon
  split_ifs
  · rw [isGlobalUnicast_false_iff.mpr h]
    rfl
  · rfl

end SocketAddress

end Boson
