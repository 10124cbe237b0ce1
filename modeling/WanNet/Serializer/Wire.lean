import WanNet.Serializer.Queue

/-!
What a packet looks like between `prepareSend` on one side and `decode` on the other.
-/

namespace WanNet.Serializer
open Block

/-- A payload as `prepareSend` leaves it, behind its header. -/
def wire (rand : UInt8) (payload : List UInt8) : List UInt8 :=
  (NetworkHeader.bytes ⟨NetworkHeader.code, UInt16.ofNat payload.length, rand, getCheckSum payload⟩).take 4 ++
    (Packet.encodeTurn rand).run 0 (0, 0) (getCheckSum payload :: payload)

variable {frame payload data : List UInt8} {header : NetworkHeader} {rand randKey : UInt8} {p p' pooled : Packet} {q : Queue}

theorem wire_length (rand : UInt8) (payload : List UInt8) : (wire rand payload).length = NetworkHeader.size + payload.length := by
  simp [wire, NetworkHeader.size]
  omega

/-! ### The two loops -/

theorem xor_cancel (b k : UInt8) : b ^^^ k ^^^ k = b := by rw [UInt8.xor_assoc, UInt8.xor_self, UInt8.xor_zero]

theorem decodeTurn_undoes (randKey : UInt8) :
    (Packet.decodeTurn randKey).Undoes (Packet.encodeTurn randKey) fun s t => t = (s.2, s.1) where
  out i s t b alike := by
    subst alike
    simp only [Packet.decodeTurn, Packet.encodeTurn, xor_cancel]
  next i s t b alike := by
    subst alike
    simp only [Packet.decodeTurn, Packet.encodeTurn, xor_cancel]

theorem encodeTurn_undoes (randKey : UInt8) :
    (Packet.encodeTurn randKey).Undoes (Packet.decodeTurn randKey) fun s t => t = (s.2, s.1) where
  out i s t b alike := by
    subst alike
    simp only [Packet.decodeTurn, Packet.encodeTurn, xor_cancel]
  next i s t b alike := by
    subst alike
    simp only [Packet.decodeTurn, Packet.encodeTurn, xor_cancel]

theorem decode_encode_run (randKey : UInt8) (data : List UInt8) :
    (Packet.decodeTurn randKey).run 0 (0, 0) ((Packet.encodeTurn randKey).run 0 (0, 0) data) = data :=
  (decodeTurn_undoes randKey).run (s := (0, 0)) rfl 0 data

theorem encode_decode_run (randKey : UInt8) (data : List UInt8) :
    (Packet.encodeTurn randKey).run 0 (0, 0) ((Packet.decodeTurn randKey).run 0 (0, 0) data) = data :=
  (encodeTurn_undoes randKey).run (s := (0, 0)) rfl 0 data

theorem decodeLoop_run (randKey : UInt8) (i : Nat) (s : UInt8 × UInt8) (data : List UInt8) :
    decodeLoop randKey i s.1 s.2 data = (Packet.decodeTurn randKey).run i s data := by
  induction data generalizing i s with
  | nil => rfl
  | cons b later ih =>
    have rest := ih (i + 1) ((Packet.decodeTurn randKey).next i s b)
    rw [decodeLoop, Coder.run, ← rest]
    rfl

/-! ### Frames -/

theorem bytes_checkSum (header : NetworkHeader) (b : UInt8) (rest : List UInt8) :
    header.bytes.take 4 ++ b :: rest = ({ header with CheckSum := b } : NetworkHeader).bytes ++ rest := by
  simp [NetworkHeader.bytes, toBytes]

/-- The header is read from the frame as it was written, but for the checksum. -/
theorem read_wire (rand : UInt8) (payload : List UInt8) (more : List UInt8) :
    ∃ checkSum, NetworkHeader.read (wire rand payload ++ more) =
      some ⟨NetworkHeader.code, UInt16.ofNat payload.length, rand, checkSum⟩ := by
  rw [wire, Coder.run, bytes_checkSum, List.append_assoc]
  exact ⟨_, NetworkHeader.read_bytes _ _⟩

/-- The bytes of a frame from its header on. -/
theorem read_eq_some (read : NetworkHeader.read frame = some header) : ∃ rest, frame = header.bytes ++ rest := by
  match frame with
  | code :: low :: high :: key :: checkSum :: rest =>
    cases read
    refine ⟨rest, ?_⟩
    simp only [NetworkHeader.bytes, toBytes, List.cons_append, List.nil_append, List.cons.injEq, true_and, and_true]
    have := low.toNat_lt
    have := high.toNat_lt
    constructor
    · apply UInt8.toNat_inj.mp
      simp
    · apply UInt8.toNat_inj.mp
      simp
      omega

/-- `encodeLength` and `decodeLength`, which have 16 bits. -/
theorem turns_eq {length : UInt16} (fits : length.toNat ≤ defaultSize) : (length + 1).toNat = length.toNat + 1 := by
  have one : (1 : UInt16).toNat = 1 := rfl
  rw [UInt16.toNat_add, one]
  apply Nat.mod_eq_of_lt
  simp only [defaultSize] at fits
  omega

/-- What `decode` makes of a whole frame. -/
theorem decode_eq (read : NetworkHeader.read frame = some header) (whole : frame.length = NetworkHeader.size + header.Length.toNat)
    (fits : header.Length.toNat ≤ defaultSize) :
    Serializer.decode frame =
      match (Packet.decodeTurn header.RandKey).run 0 (0, 0) (frame.drop 4) with
      | checkSum :: payload => if checkSum = getCheckSum payload then some payload else none
      | [] => none := by
  have length : (frame.drop 4).length = header.Length.toNat + 1 := by
    rw [List.length_drop, whole, NetworkHeader.size]
    omega
  have taken : (frame.drop 4).take (header.Length.toNat + 1) = frame.drop 4 := List.take_of_length_le (Nat.le_of_eq length)
  have left : (frame.drop 4).drop (header.Length.toNat + 1) = [] := List.drop_of_length_le (Nat.le_of_eq length)
  have loop := decodeLoop_run header.RandKey 0 (0, 0) (frame.drop 4)
  simp only [Serializer.decode, read, turns_eq fits]
  rewrite [taken, left, loop, List.append_nil]
  rfl

theorem ofNat_length (fits : payload.length ≤ defaultSize) : (UInt16.ofNat payload.length).toNat = payload.length := by
  apply UInt16.toNat_ofNat_of_lt'
  simp only [defaultSize, UInt16.size] at fits ⊢
  omega

theorem wire_decodes (fits : payload.length ≤ defaultSize) (rand : UInt8) : Serializer.decode (wire rand payload) = some payload := by
  obtain ⟨checkSum, read⟩ := read_wire rand payload []
  rw [List.append_nil] at read
  have length := ofNat_length fits
  have body : (wire rand payload).drop 4 = (Packet.encodeTurn rand).run 0 (0, 0) (getCheckSum payload :: payload) := rfl
  rw [decode_eq read (by rw [wire_length, length]) (by rw [length]; exact fits), body, decode_encode_run]
  exact if_pos rfl

/-- A frame decodes to a payload if, and only if, it is what `prepareSend` makes of that payload under the frame's key. -/
theorem decode_iff_wire (read : NetworkHeader.read frame = some header) (code : header.Code = NetworkHeader.code)
    (whole : frame.length = NetworkHeader.size + header.Length.toNat) (fits : header.Length.toNat ≤ defaultSize) :
    Serializer.decode frame = some payload ↔ frame = wire header.RandKey payload := by
  have body : frame.take 4 = header.bytes.take 4 := by
    obtain ⟨rest, rfl⟩ := read_eq_some read
    exact List.take_append_of_le_length (by rw [NetworkHeader.bytes_length, NetworkHeader.size]; omega)
  constructor
  · intro decoded
    rw [decode_eq read whole fits] at decoded
    split at decoded
    next checkSum rest is =>
      split_ifs at decoded with right
      rw [Option.some.injEq] at decoded
      subst decoded right
      have length := congrArg List.length is
      rw [Coder.run_length, List.length_drop, whole, List.length_cons, NetworkHeader.size] at length
      have same : UInt16.ofNat rest.length = header.Length := by
        rw [show rest.length = header.Length.toNat by omega, UInt16.ofNat_toNat]
      have encoded := encode_decode_run header.RandKey (frame.drop 4)
      rw [is] at encoded
      rw [wire, encoded, same, ← code]
      conv_lhs => rw [← List.take_append_drop 4 frame, body]
      rfl
    · cases decoded
  · intro is
    have length : payload.length = header.Length.toNat := by
      have := wire_length header.RandKey payload
      rw [← is, whole] at this
      omega
    rw [is]
    exact wire_decodes (by omega) _

/-! ### In place -/

namespace Packet

/-- What a loop over a frame makes of the packet's memory. -/
theorem sweep_toList (turn : UInt8 → Coder (UInt8 × UInt8) UInt8) {rest : List UInt8}
    (stands : p.memory.toList = header.bytes.take 4 ++ data ++ rest) (length : data.length = header.Length.toNat + 1)
    (fits : header.Length.toNat ≤ defaultSize) :
    ∃ memory, p.sweep turn = .ok { p with memory := memory } ∧
      memory.toList = header.bytes.take 4 ++ (turn header.RandKey).run 0 (0, 0) data ++ rest := by
  have four : (header.bytes.take 4).length = 4 := rfl
  obtain ⟨first, later, rfl⟩ : ∃ first later, data = first :: later := by
    cases data with
    | nil => cases length
    | cons first later => exact ⟨first, later, rfl⟩
  have here : p.header = { header with CheckSum := first } := by
    rw [Packet.header, stands, List.append_assoc, List.cons_append, bytes_checkSum, NetworkHeader.read_bytes]
    rfl
  have cells : (p.memory.toList.drop (4 + 0)).take (header.Length.toNat + 1) = first :: later := by
    rw [stands, List.append_assoc, List.drop_left' four, List.take_left' length]
  have inside : 4 + 0 + (header.Length.toNat + 1) ≤ NetworkHeader.size + defaultSize := by
    simp only [NetworkHeader.size, defaultSize] at fits ⊢
    omega
  obtain ⟨memory, swept, eq⟩ := Coder.sweep_toList (turn header.RandKey) (0, 0) p.memory inside
  rw [cells] at eq
  refine ⟨memory, ?_, ?_⟩
  · simp only [sweep, here, turns_eq fits]
    rw [swept]
  · rw [eq, stands, List.append_assoc _ _ rest, List.take_left' four]
    congr 1
    rw [← List.append_assoc, List.drop_left' (by rw [List.length_append, four, length])]

/-- A packet between `setHeaderValue` and `encode`. -/
structure Headed (p : Packet) (rand : UInt8) (payload : List UInt8) : Prop where
  size : p.mSize.toNat = payload.length
  fits : payload.length ≤ defaultSize
  stands : ∃ rest, p.memory.toList =
    NetworkHeader.bytes ⟨NetworkHeader.code, UInt16.ofNat payload.length, rand, Serializer.getCheckSum payload⟩ ++ payload ++ rest

theorem setHeaderValue_headed (written : Block.read p.memory NetworkHeader.size p.mSize.toNat = some payload) (rand : UInt8) :
    ∃ p', p.setHeaderValue rand = .ok p' ∧ Headed p' rand payload := by
  have length := Block.read_length written
  have room : NetworkHeader.size + p.mSize.toNat ≤ NetworkHeader.size + defaultSize := by
    by_contra outside
    rw [Block.read_outside (Nat.lt_of_not_le outside)] at written
    cases written
  have fits : payload.length ≤ defaultSize := by omega
  have bytes : (p.memory.toList.drop NetworkHeader.size).take payload.length = payload := by
    rw [Block.read_inside room, Option.some.injEq] at written
    rw [length]
    exact written
  have low : p.mSize.toUInt16 = UInt16.ofNat payload.length := by
    apply UInt16.toNat_inj.mp
    rw [ofNat_length fits, UInt32.toNat_toUInt16, Nat.mod_eq_of_lt] <;> simp only [defaultSize] at fits <;> omega
  obtain ⟨memory, stored, eq⟩ := Block.write_inside p.memory 0
    (NetworkHeader.bytes ⟨NetworkHeader.code, UInt16.ofNat payload.length, rand, Serializer.getCheckSum payload⟩)
    (by rw [NetworkHeader.bytes_length]; omega)
  have checkSum : p.getCheckSum = .ok (Serializer.getCheckSum payload) := by
    simp only [Packet.getCheckSum, written]
  refine ⟨{ p with memory := memory }, ?_, length.symm, fits, p.memory.toList.drop (NetworkHeader.size + payload.length), ?_⟩
  · rw [setHeaderValue, checkSum]
    simp only [Except.bind, bind, low, stored]
  · rw [eq, NetworkHeader.bytes_length, Nat.zero_add, List.take_zero, List.nil_append, List.append_assoc]
    conv_lhs => rw [← List.take_append_drop payload.length (p.memory.toList.drop NetworkHeader.size), bytes, List.drop_drop]

theorem Headed.encode (headed : Headed p rand payload) : ∃ p', p.encode = .ok p' ∧ p'.sent = .ok (wire rand payload) := by
  obtain ⟨size, fits, rest, stands⟩ := headed
  have small := ofNat_length fits
  have front : p.memory.toList =
      (NetworkHeader.bytes ⟨NetworkHeader.code, UInt16.ofNat payload.length, rand, Serializer.getCheckSum payload⟩).take 4 ++
        (Serializer.getCheckSum payload :: payload) ++ rest := by
    rw [stands, bytes_checkSum]
  obtain ⟨memory, swept, coded⟩ := sweep_toList encodeTurn front (by rw [List.length_cons, small]) (by rw [small]; exact fits)
  refine ⟨{ p with memory := memory }, swept, ?_⟩
  have whole : memory.toList = wire rand payload ++ rest := coded
  have all : Block.read memory 0 (p.mSize.toNat + NetworkHeader.size) = some (wire rand payload) := by
    rw [Block.read_inside (by omega), List.drop_zero, whole, List.take_left']
    rw [wire_length, size, Nat.add_comm]
  simp only [sent, getFullSize, all]

/-- `prepareSend` turns the bytes written into their frame, where they lie. -/
theorem prepareSend_sent (written : Block.read p.memory NetworkHeader.size p.mSize.toNat = some payload) (rand : UInt8) :
    ∃ p', p.prepareSend rand = .ok p' ∧ p'.sent = .ok (wire rand payload) ∧ p'.mbSendPrepared = true ∧
      p'.mRefCount = p.mRefCount ∧ p'.mSize = p.mSize := by
  obtain ⟨p₁, set, headed⟩ := setHeaderValue_headed (p := { p with mbSendPrepared := true }) written rand
  obtain ⟨p₂, encoded, sent⟩ := headed.encode
  obtain ⟨memory, rfl⟩ := setHeaderValue_memory set
  obtain ⟨memory', rfl⟩ := sweep_memory encoded
  refine ⟨_, ?_, sent, rfl, rfl, rfl⟩
  rw [prepareSend, set]
  exact encoded

/-- A frame copied to a packet of the pool is decoded there as the bytes of the frame are. -/
theorem receive_decodes (pooled : Packet) (read : NetworkHeader.read frame = some header)
    (whole : frame.length = NetworkHeader.size + header.Length.toNat) (fits : header.Length.toNat ≤ defaultSize) :
    ∃ p, pooled.receive frame header.Length = .ok (p, (Serializer.decode frame).isSome) ∧
      ∀ payload, Serializer.decode frame = some payload → Represents p ⟨payload, 0⟩ := by
  have length : (frame.drop 4).length = header.Length.toNat + 1 := by
    rw [List.length_drop, whole, NetworkHeader.size]
    omega
  have front : frame = header.bytes.take 4 ++ frame.drop 4 := by
    conv_lhs => rw [← List.take_append_drop 4 frame]
    congr 1
    obtain ⟨rest, rfl⟩ := read_eq_some read
    exact List.take_append_of_le_length (by rw [NetworkHeader.bytes_length, NetworkHeader.size]; omega)
  obtain ⟨memory, copied, eq⟩ := Block.write_inside pooled.alloc.memory 0 frame
    (by rw [whole]; omega)
  rw [List.take_zero, List.nil_append, Nat.zero_add, front] at eq
  obtain ⟨memory', swept, coded⟩ := sweep_toList decodeTurn
    (p := ({ pooled.alloc with memory := memory } : Packet).setUseSize header.Length.toUInt32) eq length fits
  obtain ⟨checkSum, payload, decoded⟩ : ∃ checkSum payload,
      (decodeTurn header.RandKey).run 0 (0, 0) (frame.drop 4) = checkSum :: payload := by
    cases is : (decodeTurn header.RandKey).run 0 (0, 0) (frame.drop 4) with
    | nil =>
      have := congrArg List.length is
      rw [Coder.run_length, length] at this
      cases this
    | cons checkSum payload => exact ⟨checkSum, payload, rfl⟩
  have size : payload.length = header.Length.toNat := by
    have := congrArg List.length decoded
    rw [Coder.run_length, length, List.length_cons] at this
    omega
  rw [decoded, bytes_checkSum] at coded
  have mSize : header.Length.toUInt32.toNat = header.Length.toNat := UInt16.toNat_toUInt32 _
  have bytes : Block.read memory' NetworkHeader.size payload.length = some payload := by
    rw [Block.read_inside (by omega), coded, List.append_assoc, List.drop_left' (NetworkHeader.bytes_length _), List.take_left]
  refine ⟨{ ({ pooled.alloc with memory := memory } : Packet).setUseSize header.Length.toUInt32 with memory := memory' }, ?_, ?_⟩
  · have here : (NetworkHeader.read memory'.toList).getD ⟨0, 0, 0, 0⟩ = { header with CheckSum := checkSum } := by
      rw [coded, List.append_assoc, NetworkHeader.read_bytes]
      rfl
    have checks : ({ ({ pooled.alloc with memory := memory } : Packet).setUseSize header.Length.toUInt32 with
        memory := memory' } : Packet).getCheckSum = .ok (Serializer.getCheckSum payload) := by
      simp only [getCheckSum, setUseSize, mSize, ← size, bytes]
    rw [receive, copied]
    simp only [Packet.decode]
    rw [swept]
    simp only [Except.bind, bind]
    rw [checks, decode_eq read whole fits, decoded]
    simp only [Packet.header, here]
    by_cases right : checkSum = Serializer.getCheckSum payload
    · simp [right]
    · simp [right]
  · intro found is
    rw [decode_eq read whole fits, decoded] at is
    simp only [Option.ite_none_right_eq_some, Option.some.injEq] at is
    obtain ⟨-, rfl⟩ := is
    refine ⟨rfl, ?_, ?_, bytes⟩
    · rw [Nat.zero_add, size]
      exact mSize
    · exact Nat.le_trans (Nat.le_of_eq mSize) fits

end Packet

/-- A packet accepts, of the frames that come with its length in the header, what `prepareSend` sends, and nothing else. -/
theorem received_iff_sent (pooled : Packet) (read : NetworkHeader.read frame = some header) (code : header.Code = NetworkHeader.code)
    (whole : frame.length = NetworkHeader.size + header.Length.toNat) (fits : header.Length.toNat ≤ defaultSize) :
    ∃ p ok, pooled.receive frame header.Length = .ok (p, ok) ∧ (ok = true ↔ ∃ payload, frame = wire header.RandKey payload) ∧
      ∀ payload, frame = wire header.RandKey payload → Represents p ⟨payload, 0⟩ := by
  obtain ⟨p, received, represents⟩ := Packet.receive_decodes pooled read whole fits
  refine ⟨p, _, received, ?_, fun payload is => represents payload ((decode_iff_wire read code whole fits).mpr is)⟩
  rw [Option.isSome_iff_exists]
  constructor
  · rintro ⟨payload, decoded⟩
    exact ⟨payload, (decode_iff_wire read code whole fits).mp decoded⟩
  · rintro ⟨payload, is⟩
    exact ⟨payload, (decode_iff_wire read code whole fits).mpr is⟩

def usedPacket : Packet := { memory := List.Vector.replicate _ 0xCD, mbSendPrepared := true, mSize := 12, mDeserialingSize := 4 }

theorem received_iff_sent_five : ∃ p ok, usedPacket.receive [0x77, 1, 0, 0, 0x37, 0x68] 1 = .ok (p, ok) ∧
    (ok = true ↔ ∃ payload, [0x77, 1, 0, 0, 0x37, 0x68] = wire 0 payload) ∧
    ∀ payload, [0x77, 1, 0, 0, 0x37, 0x68] = wire 0 payload → Represents p ⟨payload, 0⟩ :=
  received_iff_sent usedPacket (show NetworkHeader.read [0x77, 1, 0, 0, 0x37, 0x68] = some ⟨0x77, 1, 0, 0x37⟩ by decide) rfl (by decide) (by decide)

/-! ### Values -/

namespace Packet

def writeAll (p : Packet) (values : List Scalar) : Except Fault Packet := values.foldlM Packet.shiftLeft p

def readAll (p : Packet) : List ScalarType → Except Fault (List Scalar)
  | [] => .ok []
  | type :: later => do
    let r ← p.shiftRight type
    let values ← readAll r.1 later
    .ok (r.2 :: values)

end Packet

def bytesOf (values : List Scalar) : List UInt8 := values.flatMap Scalar.bytes

theorem Represents.writeAll (rep : Represents p q) (values : List Scalar) (room : q.fits (bytesOf values).length) :
    ∃ p', p.writeAll values = .ok p' ∧ Represents p' (q.push (bytesOf values)) := by
  induction values generalizing p q with
  | nil =>
    refine ⟨p, rfl, ?_⟩
    have same : q.push (bytesOf []) = q := by simp [Queue.push, bytesOf]
    rw [same]
    exact rep
  | cons value later ih =>
    have length : (bytesOf (value :: later)).length = value.bytes.length + (bytesOf later).length := by
      simp [bytesOf]
    have enough : q.taken + q.unread.length + (bytesOf (value :: later)).length ≤ defaultSize := of_decide_eq_true room
    rw [length] at enough
    have first := rep.call (.shiftLeft value)
    have fits : q.fits value.type.size := decide_eq_true (by rw [Scalar.bytes_length] at enough; omega)
    simp only [Queue.call, if_pos fits, Packet.call] at first
    obtain ⟨p₁, called, rep₁⟩ := first
    obtain ⟨p₂, written, rep₂⟩ := ih rep₁ (decide_eq_true (by simp only [Queue.push, List.length_append]; omega))
    have shifted : p.shiftLeft value = .ok p₁ := by
      cases is : p.shiftLeft value with
      | error f => rw [is] at called; cases called
      | ok p => rw [is] at called; cases called; rfl
    refine ⟨p₂, ?_, ?_⟩
    · rw [Packet.writeAll, List.foldlM_cons, shifted]
      exact written
    · have same : (q.push value.bytes).push (bytesOf later) = q.push (bytesOf (value :: later)) := by
        simp [Queue.push, bytesOf]
      rw [← same]
      exact rep₂

theorem Represents.readAll {values : List Scalar} {rest : List UInt8} {taken : Nat}
    (rep : Represents p ⟨bytesOf values ++ rest, taken⟩) : p.readAll (values.map Scalar.type) = .ok values := by
  induction values generalizing p taken with
  | nil => rfl
  | cons value later ih =>
    have front : bytesOf (value :: later) ++ rest = value.bytes ++ (bytesOf later ++ rest) := by simp [bytesOf]
    rw [front] at rep
    have first := rep.call (.shiftRight value.type)
    have there : value.type.size ≤ (value.bytes ++ (bytesOf later ++ rest)).length := by
      rw [List.length_append, Scalar.bytes_length]
      omega
    simp only [Queue.call, if_pos there, Packet.call, Queue.pop] at first
    rw [List.take_left' value.bytes_length, List.drop_left' value.bytes_length, value.read_bytes] at first
    obtain ⟨p₁, called, rep₁⟩ := first
    have shifted : p.shiftRight value.type = .ok (p₁, value) := by
      cases is : p.shiftRight value.type with
      | error f => rw [is] at called; cases called
      | ok r => rw [is] at called; cases called; rfl
    rw [List.map_cons, Packet.readAll, shifted]
    simp only [Except.bind, bind]
    rw [ih rep₁]

/-- Values written to one packet and sent are the values read from the packet that the frame is received in. -/
theorem sent_values_arrive (values : List Scalar) (fits : (bytesOf values).length ≤ defaultSize) (pooled other : Packet) (rand : UInt8) :
    ∃ p sent frame q,
      pooled.alloc.writeAll values = .ok p ∧ p.prepareSend rand = .ok sent ∧ sent.sent = .ok frame ∧
      other.receive frame (UInt16.ofNat (bytesOf values).length) = .ok (q, true) ∧
      q.readAll (values.map Scalar.type) = .ok values := by
  obtain ⟨p, written, rep⟩ := (represents_alloc pooled).writeAll values (decide_eq_true (by simpa using fits))
  have bytes := rep.bytes
  have size := rep.size
  simp only [Queue.push, List.nil_append, Nat.zero_add] at bytes size
  rw [← size, Nat.add_zero] at bytes
  obtain ⟨sent, prepared, handed, -⟩ := Packet.prepareSend_sent bytes rand
  obtain ⟨checkSum, read⟩ := read_wire rand (bytesOf values) []
  rw [List.append_nil] at read
  have length := ofNat_length fits
  obtain ⟨q, received, represents⟩ := Packet.receive_decodes other read (by rw [wire_length, length]) (by rw [length]; exact fits)
  rw [wire_decodes fits] at received represents
  refine ⟨p, sent, _, q, written, prepared, handed, received, ?_⟩
  have rep' := represents _ rfl
  rw [← List.append_nil (bytesOf values)] at rep'
  exact rep'.readAll

theorem three_values_arrive : ∃ p sent frame q,
    usedPacket.alloc.writeAll [.unsignedInt 70000, .char (-3), .double 1] = .ok p ∧ p.prepareSend 0xA5 = .ok sent ∧
    sent.sent = .ok frame ∧ usedPacket.receive frame 13 = .ok (q, true) ∧
    q.readAll [.unsignedInt, .char, .double] = .ok [.unsignedInt 70000, .char (-3), .double 1] :=
  sent_values_arrive [.unsignedInt 70000, .char (-3), .double 1] (by decide) usedPacket usedPacket 0xA5

end WanNet.Serializer
