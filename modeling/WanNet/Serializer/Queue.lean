import WanNet.Lib.Machine
import WanNet.Serializer.Packet

/-!
A packet between `Alloc` and `prepareSend` is a queue of bytes with room for `DEFAULT_SIZE` of them.
-/

namespace WanNet.Serializer

/-- The calls with which the users of a packet fill it and take it apart. -/
inductive Call where
  | clear
  | shiftLeft (value : Scalar)
  | shiftRight (type : ScalarType)
  | insertByte (source : List UInt8) (size : source.length < UInt32.size)
  | getByte (size : UInt32)

/-- What a call gives back, or how it ends the process. -/
inductive Reply where
  | done
  | value (value : Scalar)
  | inserted (ok : Bool)
  | bytes (data : Option (List UInt8))
  | fault (fault : Fault)
  deriving DecidableEq

variable {S : Type}

/-- A call that faults leaves nothing behind that later calls could reach. -/
def reply (r : Except Fault (S × Reply)) : Except Fault S × Reply :=
  match r with
  | .ok (s, r) => (.ok s, r)
  | .error fault => (.error fault, .fault fault)

namespace Packet

def call (p : Packet) : Call → Except Fault (Packet × Reply)
  | .clear => .ok (p.clear, .done)
  | .shiftLeft value => (p.shiftLeft value).map fun p => (p, .done)
  | .shiftRight type => (p.shiftRight type).map fun r => (r.1, .value r.2)
  | .insertByte source _ => (p.insertByte source (UInt32.ofNat source.length)).map fun r => (r.1, .inserted r.2)
  | .getByte size => (p.getByte size).map fun r => (r.1, .bytes r.2)

def step (s : Except Fault Packet) (c : Call) : Except Fault Packet × Reply := reply (s.bind fun p => p.call c)

end Packet

theorem Packet.store_same {p p' : Packet} {data : List UInt8} {size : UInt32} (h : p.store data size = .ok p') :
    ∃ memory size, p' = { p with memory := memory, mSize := size } := by
  unfold Packet.store at h
  split at h
  · cases h
    exact ⟨_, _, rfl⟩
  · cases h

theorem Packet.load_same {p p' : Packet} {data : List UInt8} {size : UInt32} (h : p.load size = .ok (p', data)) :
    ∃ taken, p' = { p with mDeserialingSize := taken } := by
  unfold Packet.load at h
  split at h
  · cases h
    exact ⟨_, rfl⟩
  · cases h

theorem map_ok {α β : Type} {r : Except Fault α} {f : α → β} {b : β} (h : r.map f = .ok b) : ∃ a, r = .ok a ∧ f a = b := by
  cases r with
  | error fault => cases h
  | ok a => exact ⟨a, rfl, Except.ok.inj h⟩

def Call.reads : Call → Bool
  | .shiftRight _ | .getByte _ => true
  | .clear | .shiftLeft _ | .insertByte _ _ => false

theorem Packet.call_reads {p p' : Packet} {c : Call} {r : Reply} (h : p.call c = .ok (p', r)) (reads : c.reads = true) :
    ∃ taken, p' = { p with mDeserialingSize := taken } := by
  cases c with
  | shiftRight type =>
    obtain ⟨⟨q, value⟩, is, eq⟩ := map_ok h
    obtain ⟨rfl, -⟩ := Prod.mk.inj eq
    unfold Packet.shiftRight at is
    split at is
    · obtain ⟨⟨q', data⟩, loads, eq⟩ := map_ok is
      obtain ⟨rfl, -⟩ := Prod.mk.inj eq
      exact Packet.load_same loads
    · cases is
  | getByte size =>
    obtain ⟨⟨q, data⟩, is, eq⟩ := map_ok h
    obtain ⟨rfl, -⟩ := Prod.mk.inj eq
    unfold Packet.getByte at is
    split at is
    · cases is
      exact ⟨_, rfl⟩
    · obtain ⟨⟨q', data⟩, loads, eq⟩ := map_ok is
      obtain ⟨rfl, -⟩ := Prod.mk.inj eq
      exact Packet.load_same loads
  | _ => cases reads

theorem Packet.call_writes {p p' : Packet} {c : Call} {r : Reply} (h : p.call c = .ok (p', r)) (writes : c.reads = false) :
    p' = p.clear ∨ ∃ memory size, p' = { p with memory := memory, mSize := size } := by
  cases c with
  | clear =>
    cases h
    exact .inl rfl
  | shiftLeft value =>
    obtain ⟨q, is, eq⟩ := map_ok h
    obtain ⟨rfl, -⟩ := Prod.mk.inj eq
    unfold Packet.shiftLeft at is
    split at is
    · exact .inr (Packet.store_same is)
    · cases is
  | insertByte source size =>
    obtain ⟨⟨q, done⟩, is, eq⟩ := map_ok h
    obtain ⟨rfl, -⟩ := Prod.mk.inj eq
    unfold Packet.insertByte at is
    split at is
    · cases is
      exact .inr ⟨_, _, rfl⟩
    · obtain ⟨q', stored, eq⟩ := map_ok is
      obtain ⟨rfl, -⟩ := Prod.mk.inj eq
      exact .inr (Packet.store_same stored)
  | _ => cases writes

theorem Packet.call_mRefCount {p p' : Packet} {c : Call} {r : Reply} (h : p.call c = .ok (p', r)) : p'.mRefCount = p.mRefCount := by
  cases reads : c.reads with
  | true =>
    obtain ⟨taken, rfl⟩ := Packet.call_reads h reads
    rfl
  | false =>
    obtain rfl | ⟨memory, size, rfl⟩ := Packet.call_writes h reads
    · rfl
    · rfl

/-- The bytes written since the last `Clear` and not read yet, and how many were read. -/
structure Queue where
  unread : List UInt8 := []
  taken : Nat := 0

namespace Queue

def push (q : Queue) (data : List UInt8) : Queue := { q with unread := q.unread ++ data }

def pop (q : Queue) (count : Nat) : Queue := ⟨q.unread.drop count, q.taken + count⟩

/-- Bytes that have been read do not make room. -/
def fits (q : Queue) (count : Nat) : Bool := q.taken + q.unread.length + count ≤ defaultSize

/-- What the calls mean. A `GetByte` so large that 32 bits do not hold its end is not refused. -/
def call (q : Queue) : Call → Except Fault (Queue × Reply)
  | .clear => .ok ({}, .done)
  | .shiftLeft value => if q.fits value.type.size then .ok (q.push value.bytes, .done) else .error .assertion
  | .shiftRight type =>
    if type.size ≤ q.unread.length then .ok (q.pop type.size, .value (type.read (q.unread.take type.size))) else .error .assertion
  | .insertByte source _ => if q.fits source.length then .ok (q.push source, .inserted true) else .ok (q, .inserted false)
  | .getByte size =>
    if UInt32.size ≤ q.taken + size.toNat then .error .outside
    else if size.toNat ≤ q.unread.length then .ok (q.pop size.toNat, .bytes (some (q.unread.take size.toNat)))
    else .ok (q, .bytes none)

def step (s : Except Fault Queue) (c : Call) : Except Fault Queue × Reply := reply (s.bind fun q => q.call c)

end Queue

structure Represents (p : Packet) (q : Queue) : Prop where
  read : p.mDeserialingSize.toNat = q.taken
  size : p.mSize.toNat = q.taken + q.unread.length
  room : p.mSize.toNat ≤ defaultSize
  bytes : Block.read p.memory (NetworkHeader.size + q.taken) q.unread.length = some q.unread

variable {p p' : Packet} {q : Queue} {data : List UInt8} {size : UInt32}

theorem represents_clear (p : Packet) : Represents p.clear {} where
  read := rfl
  size := rfl
  room := Nat.zero_le _
  bytes := by rw [Block.read_inside (by decide), List.length_nil, List.take_zero]

/-- A packet of the pool begins as the empty queue, whatever its last user left in it. -/
theorem represents_alloc (pooled : Packet) : Represents pooled.alloc {} := ⟨rfl, rfl, Nat.zero_le _, (represents_clear pooled).bytes⟩

theorem Represents.getFreeSize (rep : Represents p q) : p.getFreeSize.toNat = defaultSize - (q.taken + q.unread.length) := by
  have room := rep.room
  rw [Packet.getFreeSize, UInt32.toNat_sub_of_le, rep.size]
  · rfl
  · exact room

/-- Bytes for which there is room go in behind the others. -/
theorem Represents.store (rep : Represents p q) (sized : size.toNat = data.length) (room : q.fits data.length) :
    ∃ p', p.store data size = .ok p' ∧ Represents p' (q.push data) := by
  have fits : q.taken + q.unread.length + data.length ≤ defaultSize := of_decide_eq_true room
  have whole : NetworkHeader.size + p.mSize.toNat + data.length ≤ NetworkHeader.size + defaultSize := by
    rw [rep.size]
    omega
  obtain ⟨memory, written, -⟩ := Block.write_inside p.memory _ data whole
  have sum : (p.mSize + size).toNat = q.taken + (q.push data).unread.length := by
    have small : defaultSize < UInt32.size := by decide
    rw [UInt32.toNat_add, sized, rep.size, Queue.push, List.length_append, ← Nat.add_assoc]
    exact Nat.mod_eq_of_lt (Nat.lt_of_le_of_lt fits small)
  refine ⟨{ p with memory := memory, mSize := p.mSize + size }, by rw [Packet.store, written], rep.read, sum, ?_, ?_⟩
  · show (p.mSize + size).toNat ≤ defaultSize
    rw [sum, Queue.push, List.length_append]
    omega
  · have kept : Block.read memory (NetworkHeader.size + q.taken) q.unread.length = some q.unread := by
      rw [Block.read_before written (by rw [rep.size]; omega)]
      exact rep.bytes
    have behind : Block.read memory (NetworkHeader.size + q.taken + q.unread.length) data.length = some data := by
      rw [Nat.add_assoc, ← rep.size]
      exact Block.read_write written
    obtain ⟨a, b, first, second, both⟩ := Block.read_append memory (NetworkHeader.size + q.taken) q.unread.length
      data.length (by rw [rep.size] at whole; omega)
    rw [kept, Option.some.injEq] at first
    rw [behind, Option.some.injEq] at second
    show Block.read memory (NetworkHeader.size + q.taken) (q.unread ++ data).length = some (q.unread ++ data)
    rw [List.length_append, both, first, second]

/-- Bytes that are there come out in front. -/
theorem Represents.load (rep : Represents p q) (there : size.toNat ≤ q.unread.length) :
    ∃ p', p.load size = .ok (p', q.unread.take size.toNat) ∧ Represents p' (q.pop size.toNat) := by
  have room := rep.room
  have length : q.taken + q.unread.length ≤ defaultSize := rep.size ▸ room
  have split : size.toNat + (q.unread.length - size.toNat) = q.unread.length := Nat.add_sub_cancel' there
  obtain ⟨a, b, first, second, both⟩ := Block.read_append p.memory (NetworkHeader.size + q.taken) size.toNat
    (q.unread.length - size.toNat) (by omega)
  rw [split, rep.bytes, Option.some.injEq] at both
  have front : q.unread.take size.toNat = a := by rw [both, ← Block.read_length first, List.take_left]
  have back : q.unread.drop size.toNat = b := by rw [both, ← Block.read_length first, List.drop_left]
  have sum : (p.mDeserialingSize + size).toNat = q.taken + size.toNat := by
    have small : defaultSize < UInt32.size := by decide
    rw [UInt32.toNat_add, rep.read]
    exact Nat.mod_eq_of_lt (by simp only [UInt32.size] at small; omega)
  refine ⟨{ p with mDeserialingSize := p.mDeserialingSize + size }, ?_, sum, ?_, room, ?_⟩
  · rw [Packet.load, rep.read, first, front]
  · show p.mSize.toNat = q.taken + size.toNat + (q.unread.drop size.toNat).length
    rw [List.length_drop, rep.size]
    omega
  · show Block.read p.memory (NetworkHeader.size + (q.taken + size.toNat)) (q.unread.drop size.toNat).length = _
    rw [← Nat.add_assoc, List.length_drop, second, ← back]
    rfl

/-- What one call does to a packet it does to the queue. -/
theorem Represents.call (rep : Represents p q) (c : Call) :
    match q.call c with
    | .ok (q', r) => ∃ p', p.call c = .ok (p', r) ∧ Represents p' q'
    | .error fault => p.call c = .error fault := by
  have free := rep.getFreeSize
  have room := rep.room
  have size := rep.size
  cases c with
  | clear => exact ⟨p.clear, rfl, represents_clear p⟩
  | shiftLeft value =>
    simp only [Queue.call, Packet.call, Packet.shiftLeft]
    by_cases fits : q.fits value.type.size
    · have enough : q.taken + q.unread.length + value.type.size ≤ defaultSize := of_decide_eq_true fits
      rw [if_pos fits, if_pos (by omega)]
      have sized : (UInt32.ofNat value.type.size).toNat = value.bytes.length := by
        rw [Scalar.bytes_length]
        cases value.type <;> rfl
      obtain ⟨p', stored, rep'⟩ := rep.store sized (by rw [Scalar.bytes_length]; exact fits)
      exact ⟨p', by rw [stored]; rfl, rep'⟩
    · have full : ¬ q.taken + q.unread.length + value.type.size ≤ defaultSize := fun le => fits (decide_eq_true le)
      rw [if_neg fits, if_neg (by omega)]
      rfl
  | shiftRight type =>
    simp only [Queue.call, Packet.call, Packet.shiftRight]
    rw [rep.read]
    by_cases there : type.size ≤ q.unread.length
    · rw [if_pos there, if_pos (by omega)]
      have sized : (UInt32.ofNat type.size).toNat = type.size := by cases type <;> rfl
      have enough : (UInt32.ofNat type.size).toNat ≤ q.unread.length := by
        rw [sized]
        exact there
      obtain ⟨p', loaded, rep'⟩ := rep.load enough
      rw [sized] at loaded rep'
      exact ⟨p', by rw [loaded]; rfl, rep'⟩
    · rw [if_neg there, if_neg (by omega)]
      rfl
  | insertByte source small =>
    simp only [Queue.call, Packet.call, Packet.insertByte]
    have sized : (UInt32.ofNat source.length).toNat = source.length := UInt32.toNat_ofNat_of_lt' small
    by_cases fits : q.fits source.length
    · have enough : q.taken + q.unread.length + source.length ≤ defaultSize := of_decide_eq_true fits
      rw [if_pos fits, if_neg (by rw [UInt32.lt_iff_toNat_lt, sized]; omega), sized, List.take_length]
      obtain ⟨p', stored, rep'⟩ := rep.store sized fits
      exact ⟨p', by rw [stored]; rfl, rep'⟩
    · have full : ¬ q.taken + q.unread.length + source.length ≤ defaultSize := fun le => fits (decide_eq_true le)
      rw [if_neg fits, if_pos (by rw [UInt32.lt_iff_toNat_lt, sized]; omega)]
      exact ⟨p, rfl, rep⟩
  | getByte count =>
    simp only [Queue.call, Packet.call, Packet.getByte]
    have sum : (p.mDeserialingSize + count).toNat = (q.taken + count.toNat) % UInt32.size := by
      rw [UInt32.toNat_add, rep.read]
    have bounded := count.toNat_lt
    have small : q.taken ≤ 1000 := by simp only [defaultSize] at room; omega
    by_cases wraps : UInt32.size ≤ q.taken + count.toNat
    · -- the sum is below `mSize` again, and the copy runs out of the allocation
      rw [if_pos wraps]
      have passes : ¬ p.mDeserialingSize + count > p.mSize := by
        rw [gt_iff_lt, UInt32.lt_iff_toNat_lt, sum, size]
        simp only [UInt32.size] at wraps ⊢
        omega
      rw [if_neg passes, Packet.load, Block.read_outside]
      · rfl
      · simp only [UInt32.size, NetworkHeader.size, defaultSize] at wraps ⊢
        omega
    rw [if_neg wraps]
    have exact_ : (p.mDeserialingSize + count).toNat = q.taken + count.toNat := by
      rw [sum, Nat.mod_eq_of_lt (Nat.lt_of_not_le wraps)]
    by_cases there : count.toNat ≤ q.unread.length
    · rw [if_pos there, if_neg (by rw [gt_iff_lt, UInt32.lt_iff_toNat_lt, exact_]; omega)]
      obtain ⟨p', loaded, rep'⟩ := rep.load there
      exact ⟨p', by rw [loaded]; rfl, rep'⟩
    · rw [if_neg there, if_pos (by rw [gt_iff_lt, UInt32.lt_iff_toNat_lt, exact_]; omega)]
      exact ⟨p, rfl, rep⟩

/-- A packet that stands for a queue, or two processes that have ended alike. -/
def Alike : Except Fault Packet → Except Fault Queue → Prop
  | .ok p, .ok q => Represents p q
  | .error f, .error f' => f = f'
  | _, _ => False

theorem alike_step (s : Except Fault Packet) (t : Except Fault Queue) (c : Call) (alike : Alike s t) :
    Alike (Packet.step s c).1 (Queue.step t c).1 ∧ (Packet.step s c).2 = (Queue.step t c).2 := by
  cases s with
  | error f =>
    cases t with
    | ok q => cases alike
    | error f' =>
      cases alike
      exact ⟨rfl, rfl⟩
  | ok p =>
    cases t with
    | error f' => cases alike
    | ok q =>
      have moved := Represents.call alike c
      simp only [Packet.step, Queue.step, Except.bind]
      cases is : q.call c with
      | error fault =>
        rw [is] at moved
        rw [moved]
        exact ⟨rfl, rfl⟩
      | ok r =>
        rw [is] at moved
        obtain ⟨p', called, rep⟩ := moved
        rw [called]
        exact ⟨rep, rfl⟩

/-- Whatever is called on a packet of the pool, in whatever order, it answers as the queue does. -/
theorem packet_answers_as_queue (pooled : Packet) (calls : List Call) :
    (Machine.run Packet.step (.ok pooled.alloc) calls).2 = (Machine.run Queue.step (.ok {}) calls).2 :=
  have start : Alike (.ok pooled.alloc) (.ok {}) := represents_alloc pooled
  (Machine.run_simulates alike_step start calls).2

end WanNet.Serializer
