import WanNet.Lib.Block
import WanNet.Serializer

/-!
An object of `Serializer`: the bytes behind `mBuffer`, the header before it, and the calls that
write, read, encode and decode them in place.
-/

namespace WanNet

def NetworkHeader.bytes (header : NetworkHeader) : List UInt8 :=
  [header.Code] ++ Block.toBytes 2 header.Length.toNat ++ [header.RandKey, header.CheckSum]

@[simp] theorem NetworkHeader.bytes_length (header : NetworkHeader) : header.bytes.length = NetworkHeader.size := by
  simp [NetworkHeader.bytes, NetworkHeader.size]

theorem NetworkHeader.read_bytes (header : NetworkHeader) (more : List UInt8) :
    NetworkHeader.read (header.bytes ++ more) = some header := by
  obtain ⟨Code, Length, RandKey, CheckSum⟩ := header
  simp only [NetworkHeader.bytes, Block.toBytes, List.cons_append, List.nil_append, NetworkHeader.read, Option.some.injEq,
    NetworkHeader.mk.injEq, true_and, and_true]
  apply UInt16.toNat_inj.mp
  have := Length.toNat_lt
  simp only [UInt16.toNat_add, UInt16.toNat_mul, UInt8.toNat_toUInt16, UInt8.toNat_ofNat', UInt16.reduceToNat]
  omega

namespace Serializer

/-! ### The types of `operator<<` and `operator>>` -/

inductive ScalarType where
  | unsignedChar | char | unsignedShort | short | unsignedInt | int | unsignedLong | long | unsignedLongLong | longLong
  | float | double
  deriving DecidableEq

/-- `sizeof`; a `long` has four bytes. -/
def ScalarType.size : ScalarType → Nat
  | .unsignedChar | .char => 1
  | .unsignedShort | .short => 2
  | .unsignedInt | .int | .unsignedLong | .long | .float => 4
  | .unsignedLongLong | .longLong | .double => 8

/-- A value of one of the types; floating point by its bits. -/
inductive Scalar where
  | unsignedChar (value : UInt8)
  | char (value : Int8)
  | unsignedShort (value : UInt16)
  | short (value : Int16)
  | unsignedInt (value : UInt32)
  | int (value : Int32)
  | unsignedLong (value : UInt32)
  | long (value : Int32)
  | unsignedLongLong (value : UInt64)
  | longLong (value : Int64)
  | float (bits : BitVec 32)
  | double (bits : BitVec 64)
  deriving DecidableEq

def Scalar.type : Scalar → ScalarType
  | .unsignedChar _ => .unsignedChar
  | .char _ => .char
  | .unsignedShort _ => .unsignedShort
  | .short _ => .short
  | .unsignedInt _ => .unsignedInt
  | .int _ => .int
  | .unsignedLong _ => .unsignedLong
  | .long _ => .long
  | .unsignedLongLong _ => .unsignedLongLong
  | .longLong _ => .longLong
  | .float _ => .float
  | .double _ => .double

def Scalar.bits : Scalar → Nat
  | .unsignedChar value => value.toNat
  | .char value => value.toUInt8.toNat
  | .unsignedShort value => value.toNat
  | .short value => value.toUInt16.toNat
  | .unsignedInt value | .unsignedLong value => value.toNat
  | .int value | .long value => value.toUInt32.toNat
  | .unsignedLongLong value => value.toNat
  | .longLong value => value.toUInt64.toNat
  | .float bits => bits.toNat
  | .double bits => bits.toNat

/-- `*(T*)(mBuffer + mSize) = value`. -/
def Scalar.bytes (value : Scalar) : List UInt8 := Block.toBytes value.type.size value.bits

/-- `*(T*)(mBuffer + mDeserialingSize)`. -/
def ScalarType.read (type : ScalarType) (bytes : List UInt8) : Scalar :=
  let bits := Block.ofBytes bytes
  match type with
  | .unsignedChar => .unsignedChar (UInt8.ofNat bits)
  | .char => .char (UInt8.ofNat bits).toInt8
  | .unsignedShort => .unsignedShort (UInt16.ofNat bits)
  | .short => .short (UInt16.ofNat bits).toInt16
  | .unsignedInt => .unsignedInt (UInt32.ofNat bits)
  | .int => .int (UInt32.ofNat bits).toInt32
  | .unsignedLong => .unsignedLong (UInt32.ofNat bits)
  | .long => .long (UInt32.ofNat bits).toInt32
  | .unsignedLongLong => .unsignedLongLong (UInt64.ofNat bits)
  | .longLong => .longLong (UInt64.ofNat bits).toInt64
  | .float => .float (BitVec.ofNat 32 bits)
  | .double => .double (BitVec.ofNat 64 bits)

@[simp] theorem Scalar.bytes_length (value : Scalar) : value.bytes.length = value.type.size := Block.toBytes_length ..

theorem Scalar.bits_lt (value : Scalar) : value.bits < 256 ^ value.type.size := by
  cases value with
  | unsignedChar value => exact value.toNat_lt
  | char value => exact value.toUInt8.toNat_lt
  | unsignedShort value => exact value.toNat_lt
  | short value => exact value.toUInt16.toNat_lt
  | unsignedInt value | unsignedLong value => exact value.toNat_lt
  | int value | long value => exact value.toUInt32.toNat_lt
  | unsignedLongLong value => exact value.toNat_lt
  | longLong value => exact value.toUInt64.toNat_lt
  | float bits | double bits => exact bits.isLt

/-- A value is read as it was written. -/
theorem Scalar.read_bytes (value : Scalar) : value.type.read value.bytes = value := by
  have bits : Block.ofBytes value.bytes = value.bits := by
    rw [Scalar.bytes, Block.ofBytes_toBytes, Nat.mod_eq_of_lt value.bits_lt]
  unfold ScalarType.read
  rw [bits]
  cases value <;> simp [Scalar.type, Scalar.bits]

/-! ### Packets -/

/-- How a call on a packet ends the process: a failed assertion, or a copy that leaves the packet's allocation. -/
inductive Fault where
  | assertion
  | outside
  deriving DecidableEq

/-- The members of `Serializer`. `memory` is the whole allocation: a header, and `mBuffer` behind it. -/
structure Packet where
  memory : List.Vector UInt8 (NetworkHeader.size + defaultSize)
  mbSendPrepared : Bool := false
  mRefCount : UInt32 := 0
  mSize : UInt32 := 0
  mDeserialingSize : UInt32 := 0

namespace Packet

/-- Set by the constructor and by nothing else. -/
def mCapacity (_ : Packet) : UInt32 := UInt32.ofNat defaultSize

def getFullSize (p : Packet) : Nat := p.mSize.toNat + NetworkHeader.size

def getFreeSize (p : Packet) : UInt32 := p.mCapacity - p.mSize

def clear (p : Packet) : Packet := { p with mbSendPrepared := false, mSize := 0, mDeserialingSize := 0 }

def setUseSize (p : Packet) (size : UInt32) : Packet := { p with mSize := size }

def incrementRefCount (p : Packet) : Packet := { p with mRefCount := p.mRefCount + 1 }

/-- The count; `Free` at 0 is up to the pool. -/
def decrementRefCount (p : Packet) : Packet := { p with mRefCount := p.mRefCount - 1 }

/-- `Alloc`, with the object that the pool gave. -/
def alloc (pooled : Packet) : Packet := pooled.clear.incrementRefCount

/-- `size` bytes stored at `mBuffer + mSize`. -/
def store (p : Packet) (data : List UInt8) (size : UInt32) : Except Fault Packet :=
  match Block.write p.memory (NetworkHeader.size + p.mSize.toNat) data with
  | some memory => .ok { p with memory := memory, mSize := p.mSize + size }
  | none => .error .outside

/-- `size` bytes loaded from `mBuffer + mDeserialingSize`. -/
def load (p : Packet) (size : UInt32) : Except Fault (Packet × List UInt8) :=
  match Block.read p.memory (NetworkHeader.size + p.mDeserialingSize.toNat) size.toNat with
  | some data => .ok ({ p with mDeserialingSize := p.mDeserialingSize + size }, data)
  | none => .error .outside

def insertByte (p : Packet) (source : List UInt8) (size : UInt32) : Except Fault (Packet × Bool) :=
  if p.getFreeSize < size then .ok (p, false) else (p.store (source.take size.toNat) size).map fun p => (p, true)

/-- Both sums of the test have 32 bits. -/
def getByte (p : Packet) (size : UInt32) : Except Fault (Packet × Option (List UInt8)) :=
  if p.mDeserialingSize + size > p.mSize then .ok (p, none) else (p.load size).map fun r => (r.1, some r.2)

/-- `operator<<`. -/
def shiftLeft (p : Packet) (value : Scalar) : Except Fault Packet :=
  if p.getFreeSize.toNat ≥ value.type.size then p.store value.bytes (UInt32.ofNat value.type.size) else .error .assertion

/-- `operator>>`. A sum with a `sizeof` has 64 bits. -/
def shiftRight (p : Packet) (type : ScalarType) : Except Fault (Packet × Scalar) :=
  if p.mDeserialingSize.toNat + type.size ≤ p.mSize.toNat then
    (p.load (UInt32.ofNat type.size)).map fun r => (r.1, type.read r.2)
  else .error .assertion

/-! ### Headers and encoding -/

/-- The loop reads every byte of the payload. -/
def getCheckSum (p : Packet) : Except Fault UInt8 :=
  match Block.read p.memory NetworkHeader.size p.mSize.toNat with
  | some payload => .ok (Serializer.getCheckSum payload)
  | none => .error .outside

def header (p : Packet) : NetworkHeader :=
  (NetworkHeader.read p.memory.toList).getD ⟨0, 0, 0, 0⟩

def setHeaderValue (p : Packet) (rand : UInt8) : Except Fault Packet := do
  let checkSum ← p.getCheckSum
  match Block.write p.memory 0 (NetworkHeader.bytes ⟨NetworkHeader.code, p.mSize.toUInt16, rand, checkSum⟩) with
  | some memory => .ok { p with memory := memory }
  | none => .error .outside

/-- A turn of the loop of `encode`, with `nextRandKey` and `prevEncodedValue`. -/
def encodeTurn (randKey : UInt8) : Block.Coder (UInt8 × UInt8) UInt8 where
  out i s b := (b ^^^ (s.1 + randKey + UInt8.ofNat (i + 1))) ^^^ (s.2 + NetworkHeader.fixedKey + UInt8.ofNat (i + 1))
  next i s b :=
    let nextRandKey := b ^^^ (s.1 + randKey + UInt8.ofNat (i + 1))
    (nextRandKey, nextRandKey ^^^ (s.2 + NetworkHeader.fixedKey + UInt8.ofNat (i + 1)))

/-- A turn of the loop of `decode`, with `prevEncodedValue` and `prevRandKey`. -/
def decodeTurn (randKey : UInt8) : Block.Coder (UInt8 × UInt8) UInt8 where
  out i s b := (b ^^^ (s.1 + NetworkHeader.fixedKey + UInt8.ofNat (i + 1))) ^^^ (s.2 + randKey + UInt8.ofNat (i + 1))
  next i s b := (b, b ^^^ (s.1 + NetworkHeader.fixedKey + UInt8.ofNat (i + 1)))

/-- A loop from `mBuffer - 1` on, over the payload and the checksum before it. -/
def sweep (p : Packet) (turn : UInt8 → Block.Coder (UInt8 × UInt8) UInt8) : Except Fault Packet :=
  match (turn p.header.RandKey).sweep 4 (p.header.Length + 1).toNat 0 (0, 0) p.memory with
  | some memory => .ok { p with memory := memory }
  | none => .error .outside

def encode (p : Packet) : Except Fault Packet := p.sweep encodeTurn

def decode (p : Packet) : Except Fault (Packet × Bool) := do
  let p ← p.sweep decodeTurn
  let checkSum ← p.getCheckSum
  .ok (p, decide (p.header.CheckSum = checkSum))

def prepareSend (p : Packet) (rand : UInt8) : Except Fault Packet := do
  let p ← ({ p with mbSendPrepared := true } : Packet).setHeaderValue rand
  p.encode

/-- What `send` and `WSASend` are given: `GetFullSize()` bytes from `GetFullBufferPointer()` on. -/
def sent (p : Packet) : Except Fault (List UInt8) :=
  match Block.read p.memory 0 p.getFullSize with
  | some frame => .ok frame
  | none => .error .outside

/-- A frame of `header.Length` bytes copied off a ring to a packet of the pool, and decoded there. -/
def receive (pooled : Packet) (frame : List UInt8) (length : UInt16) : Except Fault (Packet × Bool) :=
  match Block.write pooled.alloc.memory 0 frame with
  | some memory => (({ pooled.alloc with memory := memory } : Packet).setUseSize length.toUInt32).decode
  | none => .error .outside

/-! ### What the calls leave alone -/

variable {p p' : Packet} {frame : List UInt8} {length : UInt16} {rand : UInt8} {ok : Bool}

theorem sweep_memory {turn : UInt8 → Block.Coder (UInt8 × UInt8) UInt8} (h : p.sweep turn = .ok p') :
    ∃ memory, p' = { p with memory := memory } := by
  unfold sweep at h
  split at h
  next memory _ =>
    cases h
    exact ⟨memory, rfl⟩
  · cases h

theorem setHeaderValue_memory (h : p.setHeaderValue rand = .ok p') : ∃ memory, p' = { p with memory := memory } := by
  unfold setHeaderValue at h
  cases is : p.getCheckSum with
  | error fault =>
    rw [is] at h
    cases h
  | ok checkSum =>
    rw [is] at h
    simp only [bind, Except.bind] at h
    split at h
    next memory _ =>
      cases h
      exact ⟨memory, rfl⟩
    · cases h

theorem decode_memory (h : p.decode = .ok (p', ok)) : ∃ memory, p' = { p with memory := memory } := by
  unfold decode at h
  cases is : p.sweep decodeTurn with
  | error fault =>
    rw [is] at h
    cases h
  | ok swept =>
    rw [is] at h
    obtain ⟨memory, rfl⟩ := sweep_memory is
    refine ⟨memory, ?_⟩
    cases sum : ({ p with memory := memory } : Packet).getCheckSum with
    | error fault =>
      simp only [bind, Except.bind, sum] at h
      cases h
    | ok checkSum =>
      simp only [bind, Except.bind, sum, Except.ok.injEq, Prod.mk.injEq] at h
      exact h.1.symm

theorem receive_memory {pooled : Packet} (h : pooled.receive frame length = .ok (p', ok)) :
    ∃ memory, p' = { pooled.alloc with memory := memory, mSize := length.toUInt32 } := by
  unfold receive at h
  split at h
  · obtain ⟨memory, rfl⟩ := decode_memory h
    exact ⟨memory, rfl⟩
  · cases h

end Packet
end Serializer
end WanNet
