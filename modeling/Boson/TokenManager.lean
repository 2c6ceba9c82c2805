import Boson.Value

/-!
# Tokens (`src/core/token_manager.cc`)

A node hands out a token with its answers and accepts it back with a `STORE_VALUE` or
`ANNOUNCE_PEER`. The token is a part of a hash over the asking node, its address, a target, a
timestamp and a secret. The timestamp changes when it is older than `TOKEN_TIMEOUT`; the one before
is still accepted.
-/

namespace Boson

/-- `TOKEN_TIMEOUT`, in milliseconds. -/
def TOKEN_TIMEOUT : UInt64 := 5 * 60 * 1000

/-- `TokenManager`. -/
structure TokenManager where
  timestamp : UInt64 := 0
  previousTimestamp : UInt64
  sessionSecret : Bytes 32

namespace TokenManager

/-- A 64-bit number in network order. -/
def be64 (x : UInt64) : List UInt8 :=
  ([56, 48, 40, 32, 24, 16, 8, 0] : List UInt64).map fun shift => (x >>> shift).toUInt8

/-- `TokenManager::updateTokenTimestamps`. The difference is unsigned. -/
def updateTokenTimestamps (self : TokenManager) (now : UInt64) : TokenManager :=
  if now - self.timestamp > TOKEN_TIMEOUT then
    { self with timestamp := now, previousTimestamp := self.timestamp }
  else self

@[simp] theorem sessionSecret_update (self : TokenManager) (now : UInt64) :
    (self.updateTokenTimestamps now).sessionSecret = self.sessionSecret := by
  unfold updateTokenTimestamps
  split_ifs <;> rfl

/-- `TokenManager::generateToken` for a timestamp. -/
def tokenAt (self : TokenManager) (C : Crypto) (nodeId : Id) (addr : SocketAddress) (targetId : Id)
    (timestamp : UInt64) : Int32 :=
  let digest :=
    (C.sha256 (nodeId.bytes ++ addr.inaddr ++ SocketAddress.be16 addr.port ++ targetId.bytes ++
    be64 timestamp ++ self.sessionSecret.data)).bytes
  let pos := (digest.getD 0 0 &&& 0x1f).toNat
  let byte (i : Nat) : UInt32 := (digest.getD ((pos + i) % 32) 0).toUInt32
  ((byte 0 <<< 24) ||| (byte 1 <<< 16) ||| (byte 2 <<< 8) ||| byte 3).toInt32

theorem tokenAt_congr (C : Crypto) {a b : TokenManager} (h : a.sessionSecret = b.sessionSecret)
    (nodeId : Id) (addr : SocketAddress) (targetId : Id) :
    a.tokenAt C nodeId addr targetId = b.tokenAt C nodeId addr targetId := by
  funext stamp
  simp only [tokenAt, h]

/-- `TokenManager::generateToken`. -/
def generateToken (self : TokenManager) (C : Crypto) (now : UInt64) (nodeId : Id)
    (addr : SocketAddress) (targetId : Id) : Int32 × TokenManager :=
  let self := self.updateTokenTimestamps now
  (self.tokenAt C nodeId addr targetId self.timestamp, self)

/-- `TokenManager::verifyToken`. -/
def verifyToken (self : TokenManager) (C : Crypto) (now : UInt64) (token : Int32) (nodeId : Id)
    (addr : SocketAddress) (targetId : Id) : Bool × TokenManager :=
  let self := self.updateTokenTimestamps now
  (token = self.tokenAt C nodeId addr targetId self.timestamp ||
    token = self.tokenAt C nodeId addr targetId self.previousTimestamp, self)

/-- A token is accepted if it is the one of either stamp. -/
theorem verifyToken_iff (self : TokenManager) (C : Crypto) (now : UInt64)
    (token : Int32) (nodeId : Id) (addr : SocketAddress) (targetId : Id) :
    (self.verifyToken C now token nodeId addr targetId).1 = true ↔
      token = self.tokenAt C nodeId addr targetId (self.updateTokenTimestamps now).timestamp ∨
        token = self.tokenAt C nodeId addr targetId
          (self.updateTokenTimestamps now).previousTimestamp := by
  dsimp only [verifyToken]
  rw [tokenAt_congr C (self.sessionSecret_update now), Bool.or_eq_true, decide_eq_true_eq,
    decide_eq_true_eq]

end TokenManager

end Boson
