import Boson.Value

/-!
# Peers (`include/boson/peer_info.h`, `src/core/peer_info.cc`)

A peer is a service that a node announces. As with `Value`, what the constructor checks is part of
the type: the port is not 0 and the signature has 64 bytes.
-/

namespace Boson

/-- `PeerInfo`. -/
structure PeerInfo where
  publicKey : Id
  privateKey : Option PrivateKey := none
  nodeId : Id
  origin : Id
  port : UInt16
  alternativeURL : Option (List UInt8) := none
  signature : List UInt8
  port_ok : port ≠ 0
  signature_ok : signature.length = SIGNATURE_BYTES
  deriving DecidableEq

namespace PeerInfo

/-- `PeerInfo::isDelegated`. -/
def isDelegated (self : PeerInfo) : Bool := self.nodeId ≠ self.origin

/-- `PeerInfo::of`: the constructor from fields. An empty blob stands for an absent field; an origin
that is absent is the node itself. -/
def of (C : Crypto) (peerId privateKey nodeId origin : List UInt8) (port : UInt16)
    (alternativeURL signature : List UInt8) : Except String PeerInfo :=
  match Id.ofBlob? peerId with
  | none => .error "Invalid peer Id"
  | some publicKey =>
    if privateKey ≠ [] ∧ privateKey.length ≠ 64 then .error "Invalid private key"
    else match Id.ofBlob? nodeId with
      | none => .error "Invalid node id"
      | some node =>
        if origin ≠ [] ∧ (Id.ofBlob? origin).isNone then .error "Invalid origin id"
        else if hport : port = 0 then .error "Invalid port"
        else if hsig : signature.length = SIGNATURE_BYTES then
          .ok
            { publicKey := publicKey
              privateKey := Bytes.ofList? 64 privateKey
              nodeId := node
              origin := (Id.ofBlob? origin).getD node
              port := port
              alternativeURL :=
                if alternativeURL = [] then none else some (C.utf8NFC alternativeURL)
              signature := signature
              port_ok := hport
              signature_ok := hsig }
        else .error "Invalid signature"

/-- `PeerInfo::getSignData`: the port in network order. -/
def getSignData (self : PeerInfo) : List UInt8 :=
  self.nodeId.bytes ++ self.origin.bytes ++ SocketAddress.be16 self.port ++
    self.alternativeURL.getD []

/-- `PeerInfo::isValid`. -/
def isValid (self : PeerInfo) (C : Crypto) : Bool :=
  C.verify self.getSignData self.signature self.publicKey

/-- What the constructor makes of its arguments. -/
structure Made (C : Crypto) (peerId privateKey nodeId origin : List UInt8) (port : UInt16)
    (alternativeURL signature : List UInt8) (p : PeerInfo) : Prop where
  publicKey : Id.ofBlob? peerId = some p.publicKey
  privateKey : p.privateKey = Bytes.ofList? 64 privateKey
  nodeId : Id.ofBlob? nodeId = some p.nodeId
  origin : p.origin = (Id.ofBlob? origin).getD p.nodeId
  port : p.port = port
  alternativeURL : p.alternativeURL = if alternativeURL = [] then
    none else some (C.utf8NFC alternativeURL)
  signature : p.signature = signature

theorem made_of_eq_ok {C : Crypto}
    {peerId privateKey nodeId origin alternativeURL signature : List UInt8} {port : UInt16}
    {p : PeerInfo} (h : of C peerId privateKey nodeId origin port alternativeURL
    signature = .ok p) :
    Made C peerId privateKey nodeId origin port alternativeURL signature p := by
  unfold of at h
  cases hid : Id.ofBlob? peerId with
  | none =>
    rw [hid] at h
    cases h
  | some publicKey =>
    cases hnode : Id.ofBlob? nodeId with
    | none =>
      simp only [hid, hnode] at h
      split_ifs at h
    | some node =>
      simp only [hid, hnode] at h
      by_cases hkey : privateKey ≠ [] ∧ privateKey.length ≠ 64
      · rw [if_pos hkey] at h
        cases h
      · rw [if_neg hkey] at h
        by_cases horigin : origin ≠ [] ∧ (Id.ofBlob? origin).isNone = true
        · rw [if_pos horigin] at h
          cases h
        · rw [if_neg horigin] at h
          split at h
          · cases h
          · split at h
            · cases h
              exact ⟨hid, rfl, hnode, rfl, rfl, rfl, rfl⟩
            · cases h

/-- The fields of ids cannot be wrong when they come from ids. -/
theorem of_ids (C : Crypto) (peerId nodeId origin : Id) (port : UInt16)
    (alternativeURL signature : List UInt8) :
    (∃ p, of C peerId.bytes [] nodeId.bytes origin.bytes port alternativeURL signature = .ok p) ↔
      port ≠ 0 ∧ signature.length = SIGNATURE_BYTES := by
  simp only [of, Id.ofBlob?_bytes]
  by_cases hport : port = 0
  · simp [hport]
  · by_cases hsig : signature.length = SIGNATURE_BYTES <;> simp [hport, hsig]

end PeerInfo

end Boson
