import Mathlib.Data.List.Basic
import Mathlib.Tactic.Ring.RingNF

/-!
`NetworkHeader` and `Serializer`, with `NETWORK_HEADER_TYPE_NET`.
-/

namespace WanNet

/-- The five bytes before a payload. -/
structure NetworkHeader where
  Code : UInt8
  Length : UInt16
  RandKey : UInt8
  CheckSum : UInt8
  deriving DecidableEq

namespace NetworkHeader

/-- `sizeof(NetworkHeader)`. -/
def size : Nat := 5

/-- `NETWORK_HEADER_CODE`. -/
def code : UInt8 := 0x77

/-- `NETWORK_HEADER_FIXED_KEY`. -/
def fixedKey : UInt8 := 0x32

/-- `memcpy` to a header; `Length` is little-endian. -/
def read : List UInt8 → Option NetworkHeader
  | code :: low :: high :: randKey :: checkSum :: _ =>
    some ⟨code, low.toUInt16 + 256 * high.toUInt16, randKey, checkSum⟩
  | _ => none

end NetworkHeader

namespace Serializer

/-- `DEFAULT_SIZE`, what a packet has room for behind its header. -/
def defaultSize : Nat := 1000

def getCheckSum (payload : List UInt8) : UInt8 := payload.foldl (· + ·) 0

/-- The loop of `decode`, over the bytes from `decodeData[i]` on. -/
def decodeLoop (randKey : UInt8) (i : Nat) (prevEncodedValue prevRandKey : UInt8) : List UInt8 → List UInt8
  | [] => []
  | b :: rest =>
    let currentRandKey := b ^^^ (prevEncodedValue + NetworkHeader.fixedKey + UInt8.ofNat (i + 1))
    (currentRandKey ^^^ (prevRandKey + randKey + UInt8.ofNat (i + 1))) :: decodeLoop randKey (i + 1) b currentRandKey rest

/-- The payload of a frame, if its checksum is right. `decodeLength` is 16 bits. -/
def decode (frame : List UInt8) : Option (List UInt8) :=
  match NetworkHeader.read frame with
  | none => none
  | some header =>
    let decodeData := frame.drop 4
    let decodeLength := (header.Length + 1).toNat
    match decodeLoop header.RandKey 0 0 0 (decodeData.take decodeLength) ++ decodeData.drop decodeLength with
    | checkSum :: payload => if checkSum = getCheckSum payload then some payload else none
    | [] => none

end Serializer
end WanNet
