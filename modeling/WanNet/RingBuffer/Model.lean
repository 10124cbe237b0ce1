import Mathlib.Algebra.Group.Int.Defs
import Mathlib.Data.List.Basic

/-!
`RingBuffer` of NetServer/RingBuffer.h: a ring of `mCapacity` cells, filled at `mRear` and drained
at `mFront`. The C `int`s are integers; the ranges kept as fields hold every sum the code forms
below `2 ^ 31`.
-/

namespace WanNet

/-- The cells are addressed from `mBuffer`, so the code's pointer arithmetic is integer arithmetic. -/
structure RingBuffer (α : Type) where
  mBuffer : Int → α
  mCapacity : Int
  mFront : Int
  mRear : Int
  capacity_range : 1 ≤ mCapacity ∧ mCapacity ≤ 2 ^ 30
  front_range : 0 ≤ mFront ∧ mFront < mCapacity
  rear_range : 0 ≤ mRear ∧ mRear < mCapacity

/-- `memcpy(mem + dst, data, data.length)`. -/
def memcpy {α : Type} (mem : Int → α) (dst : Int) (data : List α) : Int → α := fun i =>
  if dst ≤ i then (data[(i - dst).toNat]?).getD (mem i) else mem i

theorem memcpy_other {α : Type} (mem : Int → α) {dst i : Int} {data : List α}
    (h : i < dst ∨ dst + data.length ≤ i) : memcpy mem dst data i = mem i := by
  unfold memcpy
  split
  · rw [List.getElem?_eq_none (by omega), Option.getD_none]
  · rfl

theorem memcpy_at {α : Type} (mem : Int → α) (dst : Int) {data : List α} {k : Nat} (hk : k < data.length) :
    memcpy mem dst data (dst + k) = data[k] := by
  have offset : (dst + k - dst).toNat = k := by omega
  rw [memcpy, if_pos (by omega), offset, List.getElem?_eq_getElem hk, Option.getD_some]

/-- The `n` cells from `src` on, as `memcpy` reads them. -/
def cells {α : Type} (mem : Int → α) (src : Int) (n : Nat) : List α :=
  (List.range n).map fun k : Nat => mem (src + k)

/-- C's `%` on the sums the ring forms: they stay below twice the capacity. -/
theorem tmod_wrap {x c : Int} (h0 : 0 ≤ x) (h1 : x < 2 * c) :
    x.tmod c = if x < c then x else x - c := by
  rw [Int.tmod_eq_emod_of_nonneg h0]
  split
  · exact Int.emod_eq_of_lt h0 ‹_›
  · rw [← Int.sub_emod_right]
    exact Int.emod_eq_of_lt (by omega) (by omega)

theorem tmod_range {x c : Int} (h0 : 0 ≤ x) (hc : 1 ≤ c) : 0 ≤ x.tmod c ∧ x.tmod c < c := by
  rw [Int.tmod_eq_emod_of_nonneg h0]
  exact ⟨Int.emod_nonneg _ (by omega), Int.emod_lt_of_pos _ (by omega)⟩

namespace RingBuffer
variable {α : Type}

def defaultSize : Int := 4096 * 2

theorem defaultSize_range : 1 ≤ defaultSize ∧ defaultSize ≤ 2 ^ 30 := by decide

/-- The constructor; `new char[]` leaves the cells as they are. -/
def new (mem : Int → α) (bufferSize : Int) (h : 1 ≤ bufferSize ∧ bufferSize ≤ 2 ^ 30) : RingBuffer α where
  mBuffer := mem
  mCapacity := bufferSize
  mFront := 0
  mRear := 0
  capacity_range := h
  front_range := ⟨Int.le_refl 0, h.1⟩
  rear_range := ⟨Int.le_refl 0, h.1⟩

def clearBuffer (rb : RingBuffer α) : RingBuffer α := new rb.mBuffer rb.mCapacity rb.capacity_range

def getUseSize (rb : RingBuffer α) : Int := (rb.mRear - rb.mFront + rb.mCapacity).tmod rb.mCapacity

def getFreeSize (rb : RingBuffer α) : Int := rb.mCapacity - rb.getUseSize - 1

/-- The length posted to `WSARecv` and `recv`. -/
def getDirectEnqueueSize (rb : RingBuffer α) : Int :=
  if rb.mRear > rb.getUseSize then rb.mCapacity - rb.mRear else rb.mCapacity - rb.getUseSize

def getDirectDequeueSize (rb : RingBuffer α) : Int :=
  if rb.mCapacity - rb.mFront < rb.getUseSize then rb.mCapacity - rb.mFront else rb.getUseSize

def advanceRear (rb : RingBuffer α) (size : Nat) : RingBuffer α :=
  { rb with
    mRear := (rb.mRear + size).tmod rb.mCapacity
    rear_range := tmod_range (by have := rb.rear_range; omega) rb.capacity_range.1 }

def advanceFront (rb : RingBuffer α) (size : Nat) : RingBuffer α :=
  { rb with
    mFront := (rb.mFront + size).tmod rb.mCapacity
    front_range := tmod_range (by have := rb.front_range; omega) rb.capacity_range.1 }

def store (rb : RingBuffer α) (dst : Int) (data : List α) : RingBuffer α :=
  { rb with mBuffer := memcpy rb.mBuffer dst data }

/-- `none` is the code's `false`, which leaves the ring alone. -/
def enqueue (rb : RingBuffer α) (data : List α) : Option (RingBuffer α) :=
  if rb.getFreeSize < data.length then none
  else
    let directEnqueueSize := rb.getDirectEnqueueSize
    let stored :=
      if directEnqueueSize ≥ data.length then rb.store rb.mRear data
      else
        (rb.store rb.mRear (data.take directEnqueueSize.toNat)).store 0
          (data.drop directEnqueueSize.toNat)
    some (stored.advanceRear data.length)

/-- The bytes `Dequeue` and `Peek` copy out: one run of cells, or two around the end. -/
def copyOut (rb : RingBuffer α) (dataSize : Nat) : List α :=
  let directDequeueSize := rb.getDirectDequeueSize
  if directDequeueSize ≥ dataSize then cells rb.mBuffer rb.mFront dataSize
  else
    cells rb.mBuffer rb.mFront directDequeueSize.toNat ++
      cells rb.mBuffer 0 (dataSize - directDequeueSize.toNat)

def peek (rb : RingBuffer α) (dataSize : Nat) : Option (List α) :=
  if rb.getUseSize < dataSize then none else some (rb.copyOut dataSize)

def dequeue (rb : RingBuffer α) (dataSize : Nat) : Option (List α × RingBuffer α) :=
  if rb.getUseSize < dataSize then none else some (rb.copyOut dataSize, rb.advanceFront dataSize)

def moveFront (rb : RingBuffer α) (size : Nat) : Option (RingBuffer α) :=
  if rb.getUseSize < size then none else some (rb.advanceFront size)

def moveRear (rb : RingBuffer α) (size : Nat) : Option (RingBuffer α) :=
  if rb.mCapacity - rb.getUseSize < size then none else some (rb.advanceRear size)

/-- A direct receive: the socket stores `data` at `GetRearBufferPtr()`, then `MoveRear` is called
and its result dropped. -/
def receive (rb : RingBuffer α) (data : List α) : RingBuffer α :=
  let stored := rb.store rb.mRear data
  (stored.moveRear data.length).getD stored

/-- The bytes between `mFront` and `mRear`, around the end of the ring. -/
def contents (rb : RingBuffer α) : List α :=
  (List.range rb.getUseSize.toNat).map fun k : Nat => rb.mBuffer ((rb.mFront + k).tmod rb.mCapacity)

end RingBuffer
end WanNet
