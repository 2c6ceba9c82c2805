import Boson.Message
import Boson.Lib.FoldM

/-!
# JSON values (`nlohmann::json`, `src/core/serializers.*`)

A packet holds a JSON value in CBOR. A string, and a key of an object, is a string of bytes. An
object is the list of its fields, in the order in which a loop over `items()` meets them.

`Fault` says how a piece of code fails. Only an exception can be caught: a read outside of a
container or through a null pointer is undefined behaviour, and a failed `assert` ends the process.
`Flaw` keeps of a failure which of the two it is. A build has assertions or not (`Build`); the build
scripts have them by default.
-/

namespace Boson

open FoldM

/-- The way in which a piece of code fails. -/
inductive Fault where
  | exception (what : String)
  | outOfBounds
  | nullDereference
  | assertion
  deriving DecidableEq, Repr

/-- What a failure does to a packet: one that is caught drops it. -/
inductive Flaw where
  | malformed
  | fatal
  deriving DecidableEq, Repr

/-- What a failure does to a packet. -/
def Fault.flaw : Fault → Flaw
  | exception _ => .malformed
  | outOfBounds | nullDereference | assertion => .fatal

/-- How the code was built. -/
structure Build where
  /-- `NDEBUG` is not defined. -/
  asserts : Bool

/-- A string of the source: bytes. -/
abbrev Text := List UInt8

/-- `std::string::c_str`: the characters before the first NUL. -/
def cStr (str : Text) : Text := str.takeWhile (· ≠ 0)

/-- `nlohmann::json`. A floating-point number is known by the integer that a `static_cast` makes of
it. -/
inductive Json where
  | null
  | bool (b : Bool)
  | int (i : Int)
  | float (trunc : Int)
  | str (s : Text)
  | bin (b : List UInt8)
  | arr (items : List Json)
  | obj (fields : List (Text × Json))

/-- What the outcome of a computation does to a packet. -/
abbrev flaw {α : Type} (x : Except Fault α) : Option Flaw := failsAs Fault.flaw x

/-- An `Except String` of a constructor, as an exception. -/
def throwing {α : Type} : Except String α → Except Fault α
  | .ok a => .ok a
  | .error e => .error (.exception e)

namespace Json

/-- `get_binary()`. -/
def getBinary : Json → Except Fault (List UInt8)
  | bin b => .ok b
  | _ => .error (.exception "type must be binary")

/-- `get<std::string>()`. -/
def getString : Json → Except Fault Text
  | str s => .ok s
  | _ => .error (.exception "type must be string")

/-- `get<T>()` for an arithmetic type, before the conversion to `T`. -/
def getNumber : Json → Except Fault Int
  | int i => .ok i
  | float trunc => .ok trunc
  | bool b => .ok (if b then 1 else 0)
  | _ => .error (.exception "type must be number")

/-- `get<int>()`. -/
def getInt (j : Json) : Except Fault Int32 := Int32.ofInt <$> j.getNumber

/-- `get<uint16_t>()`. -/
def getUInt16 (j : Json) : Except Fault UInt16 := UInt16.ofInt <$> j.getNumber

/-- `from_json(json, Id&)`. -/
def getId (j : Json) : Except Fault Id := do
  let b ← j.getBinary
  match Id.ofBlob? b with
  | some id => .ok id
  | none => .error (.exception Value.ID_SIZE_ERROR)

/-- `CryptoBox::Nonce(Blob(json.get_binary()))`: the constructor asserts the size before it checks
it. -/
def getNonce (B : Build) (j : Json) : Except Fault Nonce := do
  let b ← j.getBinary
  match Bytes.ofList? 24 b with
  | some nonce => .ok nonce
  | none => .error (if B.asserts then .assertion else .exception "Invaild raw nonce size.")

/-- `json[i]` on an array: it does not check the index. -/
def item (items : List Json) (i : Nat) : Except Fault Json :=
  match items[i]? with
  | some j => .ok j
  | none => .error .outOfBounds

/-- `json.at(i)`. -/
def itemAt (items : List Json) (i : Nat) : Except Fault Json :=
  match items[i]? with
  | some j => .ok j
  | none => .error (.exception "array index is out of range")

/-- `from_json(json, NodeInfo&)`. -/
def getNodeInfo : Json → Except Fault NodeInfo
  | arr items => do
    let id ← (← item items 0).getBinary
    let ip ← (← item items 1).getBinary
    let port ← (← item items 2).getInt
    match Id.ofBlob? id with
    | none => .error (.exception Value.ID_SIZE_ERROR)
    | some id =>
      match SocketAddress.ofBlob? ip (UInt16.ofInt port.toInt) with
      | none => .error (.exception "invalid ip lenght")
      | some sockaddr => .ok { nodeId := id, sockaddr := sockaddr }
  | _ => .error (.exception "cannot use operator[] with a numeric argument")

end Json

end Boson
