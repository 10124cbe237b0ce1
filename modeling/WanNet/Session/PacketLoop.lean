import WanNet.Lib.Framing
import WanNet.RingBuffer.Queue
import WanNet.Session.Model

/-!
The whole packet loop of `iocpWorkerThread` on one `RecvBuffer`: which frames it gives to
`OnReceive`, what it leaves in the ring, and that it does not matter how the bytes came in.
-/

namespace WanNet.Session
open Framing

/-- The limit a started server has: `Start` takes 0 for no limit but that of the header's field. -/
def startMaxPayloadLength (mMaxPayloadLength : UInt16) : UInt16 :=
  if mMaxPayloadLength = 0 then 0xFFFF else mMaxPayloadLength

/-- What a run of the loop did: the frames for `OnReceive`, the ring it left, and whether it left by
`goto DECREMENT_IO_COUNT` or by `break`, or was over with a copy past the end of a packet. -/
structure LoopEnd where
  frames : List (List RecvByte)
  RecvBuffer : RingBuffer RecvByte
  decrements : Bool
  overruns : Bool

/-- Turn after turn; `none` when the turns given were not enough. -/
def packetLoopRun (mMaxPayloadLength : Nat) (decode : List UInt8 → Bool) : Nat → RingBuffer RecvByte → Option LoopEnd
  | 0, _ => none
  | turns + 1, rb =>
    match packetLoop mMaxPayloadLength decode rb with
    | .wait => some ⟨[], rb, false, false⟩
    | .disconnect rest => some ⟨[], rest, true, false⟩
    | .overrun rest => some ⟨[], rest, false, true⟩
    | .deliver frame rest =>
      (packetLoopRun mMaxPayloadLength decode turns rest).map fun later => { later with frames := frame :: later.frames }

variable {max : Nat} {decode : List UInt8 → Bool} {rb ring : RingBuffer RecvByte} {bytes more tail : List RecvByte}
  {frames : List (List RecvByte)}

def Ends (max : Nat) (decode : List UInt8 → Bool) (rb : RingBuffer RecvByte) (e : LoopEnd) : Prop :=
  ∃ turns, packetLoopRun max decode turns rb = some e

theorem packetLoopRun_more {turns : Nat} {e : LoopEnd} (ended : packetLoopRun max decode turns rb = some e) :
    packetLoopRun max decode (turns + 1) rb = some e := by
  induction turns generalizing rb e with
  | zero => cases ended
  | succ turns ih =>
    rw [packetLoopRun] at ended ⊢
    cases turn : packetLoop max decode rb with
    | wait => rw [turn] at ended; exact ended
    | disconnect rest => rw [turn] at ended; exact ended
    | overrun rest => rw [turn] at ended; exact ended
    | deliver frame rest =>
      rw [turn] at ended
      obtain ⟨later, enough, same⟩ := Option.map_eq_some_iff.mp ended
      exact Option.map_eq_some_iff.mpr ⟨later, ih enough, same⟩

theorem packetLoopRun_le {few many : Nat} {e : LoopEnd} (le : few ≤ many)
    (ended : packetLoopRun max decode few rb = some e) : packetLoopRun max decode many rb = some e := by
  induction le with
  | refl => exact ended
  | step _ ih => exact packetLoopRun_more ih

theorem Ends.unique {e e' : LoopEnd} (one : Ends max decode rb e) (other : Ends max decode rb e') : e' = e := by
  obtain ⟨n, one⟩ := one
  obtain ⟨m, other⟩ := other
  have both := packetLoopRun_le (Nat.le_max_left n m) one
  rw [packetLoopRun_le (Nat.le_max_right n m) other] at both
  exact Option.some.inj both

/-! ### The reference parser -/

inductive Beginning where
  | short
  | badHeader
  | part
  | overrun (length : Nat)
  | refused (length : Nat)
  | frame (length : Nat)

/-- `header.Code == NETWORK_HEADER_CODE` and `header.Length <= GetMaxPayloadLength()`. -/
def GoodHeader (max : Nat) (bytes : List RecvByte) : Prop :=
  (bytes[0]?).map RecvByte.byte = some headerCode ∧ headerLength bytes ≤ max

instance : Decidable (GoodHeader max bytes) := inferInstanceAs (Decidable (_ ∧ _))

def beginning (max : Nat) (decode : List UInt8 → Bool) (bytes : List RecvByte) : Beginning :=
  if bytes.length < headerSize then .short
  else if ¬ GoodHeader max bytes then .badHeader
  else if bytes.length < headerSize + headerLength bytes then .part
  else if Serializer.defaultSize < headerLength bytes then .overrun (headerSize + headerLength bytes)
  else if decode ((bytes.take (headerSize + headerLength bytes)).map RecvByte.byte) then
    .frame (headerSize + headerLength bytes)
  else .refused (headerSize + headerLength bytes)

theorem headerLength_append (bytes : List RecvByte) (long : headerSize ≤ bytes.length) (more : List RecvByte) :
    headerLength (bytes ++ more) = headerLength bytes := by
  unfold headerSize at long
  unfold headerLength
  rw [List.getElem?_append_left (by omega), List.getElem?_append_left (by omega)]

theorem goodHeader_append (max : Nat) (bytes : List RecvByte) (long : headerSize ≤ bytes.length) (more : List RecvByte) :
    GoodHeader max (bytes ++ more) ↔ GoodHeader max bytes := by
  have first : (bytes ++ more)[0]? = bytes[0]? := List.getElem?_append_left (by unfold headerSize at long; omega)
  unfold GoodHeader
  rw [first, headerLength_append bytes long]

theorem headerLength_take (bytes : List RecvByte) {n : Nat} (long : headerSize ≤ n) (enough : n ≤ bytes.length) :
    headerLength (bytes.take n) = headerLength bytes := by
  have whole := headerLength_append (bytes.take n) (by rw [List.length_take]; omega) (bytes.drop n)
  rw [List.take_append_drop] at whole
  exact whole.symm

theorem goodHeader_take (max : Nat) (bytes : List RecvByte) {n : Nat} (long : headerSize ≤ n) (enough : n ≤ bytes.length) :
    GoodHeader max (bytes.take n) ↔ GoodHeader max bytes := by
  have whole := goodHeader_append max (bytes.take n) (by rw [List.length_take]; omega) (bytes.drop n)
  rw [List.take_append_drop] at whole
  exact whole.symm

/-- A turn of the loop, read off the contents of the ring. -/
theorem packetLoop_beginning (max : Nat) (decode : List UInt8 → Bool) (rb : RingBuffer RecvByte) :
    packetLoop max decode rb =
      match beginning max decode rb.contents with
      | .short => .wait
      | .badHeader => .disconnect rb
      | .part => if rb.getFreeSize ≤ 0 then .disconnect rb else .wait
      | .overrun n => .overrun (rb.advanceFront n)
      | .refused n => .disconnect (rb.advanceFront n)
      | .frame n => .deliver (rb.contents.take n) (rb.advanceFront n) := by
  have length := rb.contents_length
  unfold packetLoop beginning
  by_cases short : rb.contents.length < headerSize
  · rw [if_pos (by omega), if_pos short]
  have header : rb.peek headerSize = some (rb.contents.take headerSize) := by
    unfold RingBuffer.peek
    rw [if_neg (by omega), rb.copyOut_eq (by omega)]
  have code : (rb.contents.take headerSize)[0]? = rb.contents[0]? := by
    rw [List.getElem?_take_of_lt (by decide)]
  rw [if_neg (by omega), if_neg short, header]
  dsimp only
  rw [headerLength_take _ (Nat.le_refl _) (by omega), code]
  by_cases good : GoodHeader max rb.contents
  · have checked : ¬ ¬ GoodHeader max rb.contents := not_not_intro good
    rw [if_neg (not_not_intro good.1), if_neg (Nat.not_lt_of_le good.2), if_neg checked]
    rcases rb.dequeue_eq (headerLength rb.contents + headerSize) with ⟨less, -⟩ | ⟨enough, taken, -⟩
    · have part : rb.contents.length < headerSize + headerLength rb.contents := by omega
      rw [if_pos (by omega), if_pos part]
    · rw [if_neg (by omega), if_neg (by omega), taken, Nat.add_comm]
      dsimp only
      by_cases overrun : Serializer.defaultSize < headerLength rb.contents
      · rw [if_pos overrun, if_pos overrun]
      · rw [if_neg overrun, if_neg overrun]
        split <;> rfl
  · by_cases right : (rb.contents[0]?).map RecvByte.byte = some headerCode
    · rw [if_neg (not_not_intro right), if_pos (Nat.lt_of_not_le fun le => good ⟨right, le⟩), if_pos good]
    · rw [if_pos right, if_pos good]

structure CompleteFrame (max : Nat) (frame : List RecvByte) : Prop where
  complete : headerSize ≤ frame.length ∧ frame.length = headerSize + headerLength frame
  header : GoodHeader max frame

/-- A complete frame that passes every check. -/
structure Accepted (max : Nat) (decode : List UInt8 → Bool) (frame : List RecvByte) : Prop extends CompleteFrame max frame where
  decoded : decode (frame.map RecvByte.byte) = true

/-- A complete frame that only `decode` refuses. -/
structure Refused (max : Nat) (decode : List UInt8 → Bool) (frame : List RecvByte) : Prop extends CompleteFrame max frame where
  undecoded : decode (frame.map RecvByte.byte) = false

def FitsPacket (frame : List RecvByte) : Prop := headerLength frame ≤ Serializer.defaultSize

def BadHeader (max : Nat) (bytes : List RecvByte) : Prop := headerSize ≤ bytes.length ∧ ¬ GoodHeader max bytes

def Partial (max : Nat) (bytes : List RecvByte) : Prop :=
  headerSize ≤ bytes.length ∧ GoodHeader max bytes ∧ bytes.length < headerSize + headerLength bytes

theorem beginning_whole {frame : List RecvByte} (whole : CompleteFrame max frame) (more : List RecvByte) :
    beginning max decode (frame ++ more) =
      if Serializer.defaultSize < headerLength frame then .overrun frame.length
      else if decode (frame.map RecvByte.byte) then .frame frame.length
      else .refused frame.length := by
  obtain ⟨complete, header⟩ := whole
  have good := (goodHeader_append max _ complete.1 more).mpr header
  unfold beginning
  rw [headerLength_append _ complete.1, ← complete.2, List.take_left, if_neg (by rw [List.length_append]; omega),
    if_neg (not_not_intro good), if_neg (by rw [List.length_append]; omega)]

theorem beginning_accepted {frame : List RecvByte} (accepted : Accepted max decode frame) (fits : FitsPacket frame) (more : List RecvByte) :
    beginning max decode (frame ++ more) = .frame frame.length := by
  rw [beginning_whole accepted.toCompleteFrame, if_neg (Nat.not_lt_of_le fits), if_pos accepted.decoded]

theorem beginning_refused {frame : List RecvByte} (refused : Refused max decode frame) (fits : FitsPacket frame) (more : List RecvByte) :
    beginning max decode (frame ++ more) = .refused frame.length := by
  rw [beginning_whole refused.toCompleteFrame, if_neg (Nat.not_lt_of_le fits), refused.undecoded]
  rfl

theorem beginning_unfit {frame : List RecvByte} (whole : CompleteFrame max frame) (unfit : ¬ FitsPacket frame) (more : List RecvByte) :
    beginning max decode (frame ++ more) = .overrun frame.length := by
  rw [beginning_whole whole, if_pos (Nat.lt_of_not_le unfit)]

theorem beginning_spec (max : Nat) (decode : List UInt8 → Bool) (bytes : List RecvByte) :
    match beginning max decode bytes with
    | .short => bytes.length < headerSize
    | .badHeader => BadHeader max bytes
    | .part => Partial max bytes
    | .overrun n => n ≤ bytes.length ∧ (bytes.take n).length = n ∧ CompleteFrame max (bytes.take n) ∧ ¬ FitsPacket (bytes.take n)
    | .refused n => n ≤ bytes.length ∧ (bytes.take n).length = n ∧ Refused max decode (bytes.take n) ∧ FitsPacket (bytes.take n)
    | .frame n => n ≤ bytes.length ∧ (bytes.take n).length = n ∧ Accepted max decode (bytes.take n) ∧ FitsPacket (bytes.take n) := by
  unfold beginning
  by_cases short : bytes.length < headerSize
  · rw [if_pos short]
    exact short
  rw [if_neg short]
  by_cases good : GoodHeader max bytes
  · rw [if_neg (not_not_intro good)]
    by_cases part : bytes.length < headerSize + headerLength bytes
    · rw [if_pos part]
      exact ⟨by omega, good, part⟩
    rw [if_neg part]
    have length : (bytes.take (headerSize + headerLength bytes)).length = headerSize + headerLength bytes := by
      rw [List.length_take]
      omega
    have header := headerLength_take bytes (n := headerSize + headerLength bytes) (by omega) (by omega)
    have whole : CompleteFrame max (bytes.take (headerSize + headerLength bytes)) :=
      ⟨by omega, (goodHeader_take max bytes (n := headerSize + headerLength bytes) (by omega) (by omega)).mpr good⟩
    by_cases overrun : Serializer.defaultSize < headerLength bytes
    · rw [if_pos overrun]
      exact ⟨by omega, length, whole, fun fits => absurd (show headerLength (bytes.take _) ≤ _ from fits) (by omega)⟩
    have fits : FitsPacket (bytes.take (headerSize + headerLength bytes)) := by
      unfold FitsPacket
      omega
    rw [if_neg overrun]
    cases decoded : decode ((bytes.take (headerSize + headerLength bytes)).map RecvByte.byte) with
    | true =>
      rw [if_pos rfl]
      exact ⟨by omega, length, ⟨whole, decoded⟩, fits⟩
    | false =>
      rw [if_neg (by simp)]
      exact ⟨by omega, length, ⟨whole, decoded⟩, fits⟩
  · rw [if_pos good]
    exact ⟨by omega, good⟩

/-- More bytes do not change what the bytes at hand begin with, unless it was not all there. -/
theorem beginning_append (whole : beginning max decode bytes ≠ .short ∧ beginning max decode bytes ≠ .part) (more : List RecvByte) :
    beginning max decode (bytes ++ more) = beginning max decode bytes := by
  have spec := beginning_spec max decode bytes
  cases is : beginning max decode bytes with
  | short => exact absurd is whole.1
  | part => exact absurd is whole.2
  | badHeader =>
    rw [is] at spec
    unfold beginning
    rw [if_neg (by rw [List.length_append]; have := spec.1; omega), if_pos (by rw [goodHeader_append _ _ spec.1]; exact spec.2)]
  | overrun n =>
    rw [is] at spec
    obtain ⟨-, length, whole, unfit⟩ := spec
    have again : beginning max decode (bytes.take n ++ (bytes.drop n ++ more)) = _ := beginning_unfit whole unfit _
    rwa [← List.append_assoc, List.take_append_drop, length] at again
  | refused n =>
    rw [is] at spec
    obtain ⟨-, length, refused, fits⟩ := spec
    have again := beginning_refused refused fits (bytes.drop n ++ more)
    rwa [← List.append_assoc, List.take_append_drop, length] at again
  | frame n =>
    rw [is] at spec
    obtain ⟨-, length, accepted, fits⟩ := spec
    have again := beginning_accepted accepted fits (bytes.drop n ++ more)
    rwa [← List.append_assoc, List.take_append_drop, length] at again

theorem beginning_frame {n : Nat} (is : beginning max decode bytes = .frame n) :
    n ≤ bytes.length ∧ (bytes.take n).length = n ∧ Accepted max decode (bytes.take n) ∧ FitsPacket (bytes.take n) := by
  have spec := beginning_spec max decode bytes
  rwa [is] at spec

def verdict (max : Nat) (decode : List UInt8 → Bool) (bytes : List RecvByte) : Verdict RecvByte (List RecvByte) :=
  match beginning max decode bytes with
  | .short | .part => .wait
  | .badHeader | .overrun _ | .refused _ => .stop
  | .frame n => .frame (bytes.take n) (bytes.drop n)

theorem verdict_frame {p rest : List RecvByte} (is : verdict max decode bytes = .frame p rest) :
    ∃ n, beginning max decode bytes = .frame n ∧ p = bytes.take n ∧ rest = bytes.drop n := by
  unfold verdict at is
  cases found : beginning max decode bytes with
  | frame n =>
    rw [found] at is
    cases is
    exact ⟨n, rfl, rfl, rfl⟩
  | short | part | badHeader | overrun | refused =>
    rw [found] at is
    cases is

def format (max : Nat) (decode : List UInt8 → Bool) : Format RecvByte (List RecvByte) where
  next := verdict max decode
  shrinks is := by
    obtain ⟨n, found, rfl, rfl⟩ := verdict_frame is
    obtain ⟨enough, length, accepted, -⟩ := beginning_frame found
    have header := accepted.complete.1
    unfold headerSize at header
    rw [List.length_drop]
    omega
  frame_append more is := by
    obtain ⟨n, found, rfl, rfl⟩ := verdict_frame is
    have enough := (beginning_frame found).1
    unfold verdict
    rw [beginning_append (by rw [found]; simp) more, found]
    dsimp only
    rw [List.take_append_of_le_length enough, List.drop_append_of_le_length enough]
  stop_append {bytes} more is := by
    unfold verdict at is ⊢
    have whole : beginning max decode bytes ≠ .short ∧ beginning max decode bytes ≠ .part := by
      constructor <;> intro other <;> rw [other] at is <;> cases is
    rw [beginning_append whole more]
    cases found : beginning max decode bytes with
    | badHeader | overrun | refused => rfl
    | short | part | frame =>
      rw [found] at is
      cases is

/-! ### What the loop does with the bytes in the ring -/

/-- How the loop ends at bytes that begin with no acceptable frame. -/
def EndsAt (max : Nat) (decode : List UInt8 → Bool) (tail : List RecvByte) (e : LoopEnd) : Prop :=
  match beginning max decode tail with
  | .short => e.RecvBuffer.contents = tail ∧ e.decrements = false
  | .badHeader => e.RecvBuffer.contents = tail ∧ e.decrements = true
  | .part => e.RecvBuffer.contents = tail ∧ e.decrements = decide (e.RecvBuffer.getFreeSize ≤ 0)
  | .overrun n => e.RecvBuffer.contents = tail.drop n ∧ e.decrements = false
  | .refused n => e.RecvBuffer.contents = tail.drop n ∧ e.decrements = true
  | .frame _ => False

/-- The bytes begin with a complete frame that no packet has room for. -/
def overrunsAt (max : Nat) (decode : List UInt8 → Bool) (tail : List RecvByte) : Bool :=
  match beginning max decode tail with
  | .overrun _ => true
  | _ => false

/-- The loop ends, with the frames that the bytes in the ring begin with, a turn for each. -/
theorem packetLoopRun_of_reads {rb : RingBuffer RecvByte} (read : (format max decode).Reads rb.contents frames tail) :
    ∃ e, packetLoopRun max decode (frames.length + 1) rb = some e ∧ e.frames = frames ∧
      e.RecvBuffer.mCapacity = rb.mCapacity ∧ EndsAt max decode tail e ∧ e.overruns = overrunsAt max decode tail := by
  generalize held : rb.contents = bytes at read
  induction read generalizing rb with
  | still ended =>
    subst held
    have turn := packetLoop_beginning max decode rb
    have spec := beginning_spec max decode rb.contents
    unfold EndsAt overrunsAt
    cases found : beginning max decode rb.contents with
    | short =>
      rw [found] at turn
      exact ⟨⟨[], rb, false, false⟩, by rw [List.length_nil, packetLoopRun, turn], rfl, rfl, ⟨rfl, rfl⟩, rfl⟩
    | badHeader =>
      rw [found] at turn
      exact ⟨⟨[], rb, true, false⟩, by rw [List.length_nil, packetLoopRun, turn], rfl, rfl, ⟨rfl, rfl⟩, rfl⟩
    | part =>
      rw [found] at turn
      dsimp only at turn
      by_cases full : rb.getFreeSize ≤ 0
      · rw [if_pos full] at turn
        exact ⟨⟨[], rb, true, false⟩, by rw [List.length_nil, packetLoopRun, turn], rfl, rfl, ⟨rfl, (decide_eq_true full).symm⟩, rfl⟩
      · rw [if_neg full] at turn
        exact ⟨⟨[], rb, false, false⟩, by rw [List.length_nil, packetLoopRun, turn], rfl, rfl, ⟨rfl, (decide_eq_false full).symm⟩, rfl⟩
    | overrun n =>
      rw [found] at turn spec
      have length := rb.contents_length
      have left := rb.advanceFront_contents (n := n) (by have := spec.1; omega)
      exact ⟨⟨[], rb.advanceFront n, false, true⟩, by rw [List.length_nil, packetLoopRun, turn], rfl, rfl, ⟨left, rfl⟩, rfl⟩
    | refused n =>
      rw [found] at turn spec
      have length := rb.contents_length
      have left := rb.advanceFront_contents (n := n) (by have := spec.1; omega)
      exact ⟨⟨[], rb.advanceFront n, true, false⟩, by rw [List.length_nil, packetLoopRun, turn], rfl, rfl, ⟨left, rfl⟩, rfl⟩
    | frame n =>
      exfalso
      apply ended (rb.contents.take n) (rb.contents.drop n)
      change verdict max decode rb.contents = _
      unfold verdict
      rw [found]
  | frame is later ih =>
    subst held
    obtain ⟨n, found, rfl, rfl⟩ := verdict_frame is
    have turn := packetLoop_beginning max decode rb
    rw [found] at turn
    have length := rb.contents_length
    have left := rb.advanceFront_contents (n := n) (by have := (beginning_frame found).1; omega)
    obtain ⟨e, ended, delivered, capacity, at_tail⟩ := ih left
    refine ⟨{ e with frames := rb.contents.take n :: e.frames }, ?_, ?_, capacity, at_tail⟩
    · rw [List.length_cons, packetLoopRun, turn]
      dsimp only
      rw [ended]
      rfl
    · rw [delivered]

theorem ends_of_reads {rb : RingBuffer RecvByte} (read : (format max decode).Reads rb.contents frames tail) :
    ∃ e, Ends max decode rb e ∧ e.frames = frames ∧ e.RecvBuffer.mCapacity = rb.mCapacity ∧ EndsAt max decode tail e ∧
      e.overruns = overrunsAt max decode tail := by
  obtain ⟨e, ended, rest⟩ := packetLoopRun_of_reads read
  exact ⟨e, ⟨_, ended⟩, rest⟩

theorem reads_flatten (read : (format max decode).Reads bytes frames tail) :
    bytes = frames.flatten ++ tail ∧ ∀ frame ∈ frames, Accepted max decode frame := by
  induction read with
  | still ended => exact ⟨rfl, by simp⟩
  | frame is later ih =>
    obtain ⟨n, found, rfl, rfl⟩ := verdict_frame is
    obtain ⟨-, -, accepted, -⟩ := beginning_frame found
    obtain ⟨whole, all⟩ := ih
    constructor
    · rw [List.flatten_cons, List.append_assoc, ← whole, List.take_append_drop]
    · intro frame member
      cases member with
      | head => exact accepted
      | tail _ member => exact all frame member

theorem frames_le_bytes (frames : List (List RecvByte)) (accepted : ∀ frame ∈ frames, Accepted max decode frame) :
    frames.length ≤ frames.flatten.length := by
  induction frames with
  | nil => simp
  | cons frame frames ih =>
    have header := (accepted frame List.mem_cons_self).complete.1
    have later := ih fun f member => accepted f (List.mem_cons_of_mem _ member)
    unfold headerSize at header
    rw [List.flatten_cons, List.length_append, List.length_cons]
    omega

/-- How the loop ends; each turn takes a frame off the ring, so the bytes in it are turns enough. -/
def loopEnd (max : Nat) (decode : List UInt8 → Bool) (rb : RingBuffer RecvByte) : LoopEnd :=
  (packetLoopRun max decode (rb.getUseSize.toNat + 1) rb).getD ⟨[], rb, false, false⟩

theorem packetLoopRun_enough (max : Nat) (decode : List UInt8 → Bool) (rb : RingBuffer RecvByte) :
    packetLoopRun max decode (rb.getUseSize.toNat + 1) rb = some (loopEnd max decode rb) := by
  obtain ⟨frames, tail, read⟩ := (format max decode).reads rb.contents
  obtain ⟨e, ended, -⟩ := packetLoopRun_of_reads read
  obtain ⟨whole, accepted⟩ := reads_flatten read
  have fewer := frames_le_bytes frames accepted
  have length := rb.contents_length
  rw [whole, List.length_append] at length
  have enough := packetLoopRun_le (show frames.length + 1 ≤ rb.getUseSize.toNat + 1 by omega) ended
  rw [loopEnd, enough, Option.getD_some]

theorem loopEnd_ends (max : Nat) (decode : List UInt8 → Bool) (rb : RingBuffer RecvByte) :
    Ends max decode rb (loopEnd max decode rb) := ⟨_, packetLoopRun_enough max decode rb⟩

/-- Every complete frame that the loop comes to, behind acceptable ones only, fits a packet. -/
def Copyable (max : Nat) (decode : List UInt8 → Bool) (bytes : List RecvByte) : Prop :=
  ∀ (frames : List (List RecvByte)) (frame rest : List RecvByte), bytes = frames.flatten ++ frame ++ rest → (∀ f ∈ frames, Accepted max decode f) → CompleteFrame max frame → FitsPacket frame

theorem Copyable.begin (copyable : Copyable max decode (bytes ++ more)) : Copyable max decode bytes := by
  rintro frames frame rest rfl accepted whole
  exact copyable frames frame (rest ++ more) (List.append_assoc ..) accepted whole

theorem copyable_of_short (short : bytes.length ≤ headerSize + Serializer.defaultSize) : Copyable max decode bytes := by
  rintro frames frame rest rfl - whole
  have length := whole.complete.2
  rw [List.length_append, List.length_append] at short
  unfold FitsPacket
  omega

theorem overrunsAt_iff : overrunsAt max decode tail = true ↔ ∃ n, beginning max decode tail = .overrun n := by
  unfold overrunsAt
  cases beginning max decode tail <;> simp

/-- What begins with a complete frame begins so, or else with a frame that no packet has room for. -/
theorem fits_of_beginning {frame : List RecvByte} (whole : CompleteFrame max frame)
    (copies : ∀ n, beginning max decode (frame ++ more) ≠ .overrun n) : FitsPacket frame := by
  by_contra unfit
  exact copies _ (beginning_unfit whole unfit more)

theorem copyable_iff (read : (format max decode).Reads bytes frames tail) :
    Copyable max decode bytes ↔ overrunsAt max decode tail = false := by
  rw [Bool.eq_false_iff, Ne, overrunsAt_iff]
  constructor
  · rintro copyable ⟨n, overrun⟩
    have spec := beginning_spec max decode tail
    rw [overrun] at spec
    obtain ⟨-, -, whole, unfit⟩ := spec
    obtain ⟨same, accepted⟩ := reads_flatten read
    refine unfit (copyable frames (tail.take n) (tail.drop n) ?_ accepted whole)
    rw [List.append_assoc, List.take_append_drop]
    exact same
  · intro copies others frame rest begins accepted whole
    replace copies : ∀ n, beginning max decode tail ≠ .overrun n := fun n overrun => copies ⟨n, overrun⟩
    induction read generalizing others with
    | still ended =>
      cases others with
      | nil =>
        rw [begins, List.flatten_nil, List.nil_append] at copies
        exact fits_of_beginning whole copies
      | cons f others =>
        have f_accepted := accepted f List.mem_cons_self
        rw [begins, List.flatten_cons, List.append_assoc, List.append_assoc] at ended copies
        have found := beginning_accepted f_accepted (fits_of_beginning f_accepted.toCompleteFrame copies) (others.flatten ++ (frame ++ rest))
        exfalso
        apply ended f (others.flatten ++ (frame ++ rest))
        change verdict max decode _ = _
        unfold verdict
        rw [found]
        dsimp only
        rw [List.take_left, List.drop_left]
    | frame is later ih =>
      obtain ⟨n, found, rfl, rfl⟩ := verdict_frame is
      cases others with
      | nil =>
        rw [begins, List.flatten_nil, List.nil_append] at found
        exact fits_of_beginning whole (by rw [found]; simp)
      | cons f others =>
        have f_accepted := accepted f List.mem_cons_self
        rw [begins, List.flatten_cons, List.append_assoc, List.append_assoc] at found ih
        have fits := fits_of_beginning f_accepted.toCompleteFrame (by rw [found]; simp)
        rw [beginning_accepted f_accepted fits] at found
        cases found
        rw [List.drop_left, ← List.append_assoc] at ih
        exact ih others rfl (fun g member => accepted g (List.mem_cons_of_mem _ member)) copies

/-- No longer sequence of acceptable frames begins the bytes. -/
theorem reads_longest (read : (format max decode).Reads bytes frames tail) (copyable : Copyable max decode bytes)
    {others : List (List RecvByte)} (accepted : ∀ frame ∈ others, Accepted max decode frame) (begins : others.flatten <+: bytes) :
    others <+: frames := by
  induction read generalizing others with
  | @still bytes ended =>
    cases others with
    | nil => exact List.prefix_rfl
    | cons frame others =>
      obtain ⟨more, rfl⟩ := begins
      exfalso
      have first := accepted frame List.mem_cons_self
      have fits := copyable [] frame (others.flatten ++ more) (by simp) (by simp) first.toCompleteFrame
      have found := beginning_accepted first fits (others.flatten ++ more)
      apply ended frame (others.flatten ++ more)
      change verdict max decode _ = _
      unfold verdict
      rw [List.flatten_cons, List.append_assoc, found]
      dsimp only
      rw [List.take_left, List.drop_left]
  | @frame bytes rest tail p packets is later ih =>
    cases others with
    | nil => exact List.nil_prefix
    | cons frame others =>
      obtain ⟨more, rfl⟩ := begins
      obtain ⟨n, found, rfl, rfl⟩ := verdict_frame is
      have first := accepted frame List.mem_cons_self
      have fits := copyable [] frame (others.flatten ++ more) (by simp) (by simp) first.toCompleteFrame
      rw [List.flatten_cons, List.append_assoc] at found ih copyable ⊢
      rw [beginning_accepted first fits] at found
      cases found
      rw [List.take_left]
      rw [List.drop_left] at ih
      rw [List.cons_prefix_cons]
      refine ⟨rfl, ih ?_ (fun f member => accepted f (List.mem_cons_of_mem _ member)) (List.prefix_append _ _)⟩
      intro frames last rest begins frames_accepted
      refine copyable (frame :: frames) last rest ?_ (List.forall_mem_cons.mpr ⟨first, frames_accepted⟩)
      rw [begins, List.flatten_cons, List.append_assoc, List.append_assoc, List.append_assoc]

theorem EndsAt.spec {e : LoopEnd} (ending : EndsAt max decode tail e) (copies : overrunsAt max decode tail = false) :
    (∀ frame rest, Refused max decode frame → tail = frame ++ rest → e.RecvBuffer.contents = rest) ∧
      ((∀ frame rest, Refused max decode frame → tail ≠ frame ++ rest) → e.RecvBuffer.contents = tail) ∧
      (e.decrements = true ↔ BadHeader max tail ∨ (∃ frame rest, Refused max decode frame ∧ tail = frame ++ rest) ∨
        Partial max tail ∧ e.RecvBuffer.getFreeSize = 0) := by
  have spec := beginning_spec max decode tail
  have free := e.RecvBuffer.getFreeSize_nonneg
  have copies (n : Nat) : beginning max decode tail ≠ .overrun n := fun overrun => by
    rw [overrunsAt_iff.mpr ⟨n, overrun⟩] at copies
    cases copies
  have begins {frame rest : List RecvByte} (refused : Refused max decode frame) (same : tail = frame ++ rest) :
      beginning max decode tail = .refused frame.length := by
    rw [same] at copies ⊢
    exact beginning_refused refused (fits_of_beginning refused.toCompleteFrame copies) rest
  have unrefused (not_refused : ∀ n, beginning max decode tail ≠ .refused n) (frame rest : List RecvByte)
      (refused : Refused max decode frame) : tail ≠ frame ++ rest := fun same => not_refused _ (begins refused same)
  unfold EndsAt at ending
  cases found : beginning max decode tail with
  | short =>
    rw [found] at ending spec
    have none := unrefused (by rw [found]; simp)
    refine ⟨fun frame rest refused same => absurd same (none frame rest refused), fun _ => ending.1, ?_⟩
    rw [ending.2]
    constructor
    · intro wrong
      cases wrong
    rintro (bad | ⟨frame, rest, refused, same⟩ | part)
    · exact absurd bad.1 (Nat.not_le_of_lt spec)
    · exact absurd same (none frame rest refused)
    · exact absurd part.1.1 (Nat.not_le_of_lt spec)
  | badHeader =>
    rw [found] at ending spec
    have none := unrefused (by rw [found]; simp)
    exact ⟨fun frame rest refused same => absurd same (none frame rest refused), fun _ => ending.1,
      ⟨fun _ => .inl spec, fun _ => ending.2⟩⟩
  | part =>
    rw [found] at ending spec
    have none := unrefused (by rw [found]; simp)
    refine ⟨fun frame rest refused same => absurd same (none frame rest refused), fun _ => ending.1, ?_⟩
    rw [ending.2, decide_eq_true_iff]
    constructor
    · intro full
      exact .inr (.inr ⟨spec, by omega⟩)
    · rintro (bad | ⟨frame, rest, refused, same⟩ | part)
      · exact absurd spec.2.1 bad.2
      · exact absurd same (none frame rest refused)
      · omega
  | overrun n => exact absurd found (copies n)
  | refused n =>
    rw [found] at ending spec
    obtain ⟨-, length, refused, -⟩ := spec
    have whole : tail = tail.take n ++ tail.drop n := (List.take_append_drop n tail).symm
    refine ⟨?_, fun none => absurd whole (none _ _ refused), ⟨fun _ => .inr (.inl ⟨_, _, refused, whole⟩), fun _ => ending.2⟩⟩
    intro frame rest refused' same
    have again := begins refused' same
    rw [found] at again
    cases again
    rw [ending.1, same, List.drop_left]
  | frame n =>
    rw [found] at ending
    exact ending.elim

/-- Two endings at the same bytes, in rings of one size. -/
theorem EndsAt.same {e e' : LoopEnd} (ending : EndsAt max decode tail e) (ending' : EndsAt max decode tail e')
    (capacity : e'.RecvBuffer.mCapacity = e.RecvBuffer.mCapacity) :
    e'.RecvBuffer.contents = e.RecvBuffer.contents ∧ e'.decrements = e.decrements := by
  have free := e.RecvBuffer.getFreeSize_eq
  have free' := e'.RecvBuffer.getFreeSize_eq
  unfold EndsAt at ending ending'
  cases found : beginning max decode tail with
  | part =>
    rw [found] at ending ending'
    have contents := ending'.1.trans ending.1.symm
    refine ⟨contents, ?_⟩
    rw [ending.2, ending'.2, free, free', capacity, contents]
  | short | badHeader | overrun | refused =>
    rw [found] at ending ending'
    exact ⟨ending'.1.trans ending.1.symm, ending'.2.trans ending.2.symm⟩
  | frame n =>
    rw [found] at ending
    exact ending.elim

/-- The loop is the reference parser: it ends, delivers the longest run of acceptable frames that
the bytes in the ring begin with, leaves the bytes behind them, without a frame that `decode`
refused, and leaves for `DECREMENT_IO_COUNT` when those bytes cannot be waited out. -/
def Parses (max : Nat) (decode : List UInt8 → Bool) (rb : RingBuffer RecvByte) : Prop :=
  ∃ e tail, (Ends max decode rb e ∧ ∀ e', Ends max decode rb e' → e' = e) ∧ e.overruns = false ∧
    rb.contents = e.frames.flatten ++ tail ∧ (∀ frame ∈ e.frames, Accepted max decode frame) ∧
    (∀ frames, (∀ frame ∈ frames, Accepted max decode frame) → frames.flatten <+: rb.contents → frames <+: e.frames) ∧
    (∀ frame rest, Refused max decode frame → tail = frame ++ rest → e.RecvBuffer.contents = rest) ∧
    ((∀ frame rest, Refused max decode frame → tail ≠ frame ++ rest) → e.RecvBuffer.contents = tail) ∧
    (e.decrements = true ↔ BadHeader max tail ∨ (∃ frame rest, Refused max decode frame ∧ tail = frame ++ rest) ∨
      Partial max tail ∧ e.RecvBuffer.getFreeSize = 0)

theorem parses_iff (max : Nat) (decode : List UInt8 → Bool) (rb : RingBuffer RecvByte) :
    Parses max decode rb ↔ Copyable max decode rb.contents := by
  obtain ⟨frames, tail, read⟩ := (format max decode).reads rb.contents
  obtain ⟨e, ended, rfl, -, ending, overruns⟩ := ends_of_reads read
  rw [copyable_iff read, ← overruns]
  constructor
  · rintro ⟨e', -, ⟨ended', -⟩, copies, -⟩
    rw [ended'.unique ended]
    exact copies
  · intro copies
    obtain ⟨whole, all⟩ := reads_flatten read
    have copyable := (copyable_iff read).mpr (overruns.symm.trans copies)
    exact ⟨e, tail, ⟨ended, fun e' other => ended.unique other⟩, copies, whole, all,
      fun others accepted begins => reads_longest read copyable accepted begins, ending.spec (overruns.symm.trans copies)⟩

/-! ### Segmentation -/

theorem EndsAt.stopped {e : LoopEnd} (stop : verdict max decode tail = .stop) (copies : overrunsAt max decode tail = false)
    (ending : EndsAt max decode tail e) :
    e.decrements = true ∧ ∀ more e', EndsAt max decode (tail ++ more) e' →
      e'.decrements = true ∧ e'.RecvBuffer.contents = e.RecvBuffer.contents ++ more := by
  have spec := beginning_spec max decode tail
  unfold verdict at stop
  unfold EndsAt at ending
  cases found : beginning max decode tail with
  | short | part | frame =>
    rw [found] at stop
    cases stop
  | badHeader =>
    rw [found] at ending
    refine ⟨ending.2, ?_⟩
    intro more e' ending'
    unfold EndsAt at ending'
    rw [beginning_append (by rw [found]; simp), found] at ending'
    exact ⟨ending'.2, by rw [ending.1]; exact ending'.1⟩
  | overrun n =>
    rw [overrunsAt_iff.mpr ⟨n, found⟩] at copies
    cases copies
  | refused n =>
    rw [found] at ending spec
    refine ⟨ending.2, ?_⟩
    intro more e' ending'
    unfold EndsAt at ending'
    rw [beginning_append (by rw [found]; simp), found] at ending'
    rw [ending.1, ← List.drop_append_of_le_length spec.1]
    exact ⟨ending'.2, ending'.1⟩

theorem EndsAt.waits {e : LoopEnd} (wait : verdict max decode tail = .wait) (ending : EndsAt max decode tail e) :
    e.RecvBuffer.contents = tail ∧ (e.decrements = true → e.RecvBuffer.getFreeSize ≤ 0) := by
  unfold verdict at wait
  unfold EndsAt at ending
  cases found : beginning max decode tail with
  | badHeader | overrun | refused | frame =>
    rw [found] at wait
    cases wait
  | short =>
    rw [found] at ending
    refine ⟨ending.1, fun leaves => ?_⟩
    rw [ending.2] at leaves
    cases leaves
  | part =>
    rw [found] at ending
    refine ⟨ending.1, fun leaves => ?_⟩
    rw [ending.2] at leaves
    exact of_decide_eq_true leaves

/-- Bytes in two pieces, with the loop after each, give what the bytes in one piece give, and no copy
runs past the end of a packet. -/
def Unsegmented (max : Nat) (decode : List UInt8 → Bool) (rb : RingBuffer RecvByte) (a b : List RecvByte) : Prop :=
  ∃ ra whole ea ew, rb.enqueue a = some ra ∧ rb.enqueue (a ++ b) = some whole ∧
    Ends max decode ra ea ∧ Ends max decode whole ew ∧ ea.overruns = false ∧ ew.overruns = false ∧
    (ea.decrements = true → ew.decrements = true ∧ ew.frames = ea.frames ∧
      ew.RecvBuffer.contents = ea.RecvBuffer.contents ++ b) ∧
    (ea.decrements = false → ∃ rab eb, ea.RecvBuffer.enqueue b = some rab ∧ Ends max decode rab eb ∧ eb.overruns = false ∧
      ew.frames = ea.frames ++ eb.frames ∧ ew.decrements = eb.decrements ∧
      ew.RecvBuffer.contents = eb.RecvBuffer.contents)

theorem Ends.copies {e : LoopEnd} (ended : Ends max decode rb e) : e.overruns = false ↔ Copyable max decode rb.contents := by
  obtain ⟨frames, tail, read⟩ := (format max decode).reads rb.contents
  obtain ⟨e', ended', -, -, -, overruns⟩ := ends_of_reads read
  rw [copyable_iff read, ← overruns, ended'.unique ended]

theorem unsegmented (max : Nat) (decode : List UInt8 → Bool) (rb : RingBuffer RecvByte) {a b : List RecvByte}
    (fits : ((a.length + b.length : Nat) : Int) ≤ rb.getFreeSize) (copyable : Copyable max decode (rb.contents ++ (a ++ b))) :
    Unsegmented max decode rb a b := by
  have free := rb.getFreeSize_eq
  obtain ⟨ra, stored, held, capacity⟩ := rb.enqueue_contents a (by omega)
  obtain ⟨whole, stored_whole, held_whole, capacity_whole⟩ :=
    rb.enqueue_contents (a ++ b) (by rw [List.length_append]; omega)
  obtain ⟨frames, tail, read⟩ := (format max decode).reads ra.contents
  obtain ⟨ea, ended, rfl, capacity_ea, ending, overruns⟩ := ends_of_reads read
  have together : whole.contents = ra.contents ++ b := by rw [held_whole, held, List.append_assoc]
  rw [← held_whole] at copyable
  have first : Copyable max decode ra.contents := (together ▸ copyable).begin
  cases found : (format max decode).next tail with
  | frame p rest => exact absurd found (read.over p rest)
  | stop =>
    have read_whole := read.stopped found b
    rw [← together] at read_whole
    obtain ⟨ew, ended_whole, same_frames, -, ending_whole, -⟩ := ends_of_reads read_whole
    obtain ⟨leaves, later⟩ := ending.stopped found ((copyable_iff read).mp first)
    obtain ⟨leaves_whole, left⟩ := later b ew ending_whole
    refine ⟨ra, whole, ea, ew, stored, stored_whole, ended, ended_whole, ended.copies.mpr first, ended_whole.copies.mpr copyable,
      fun _ => ⟨leaves_whole, same_frames, left⟩, ?_⟩
    intro stays
    rw [leaves] at stays
    cases stays
  | wait =>
    obtain ⟨left, full⟩ := ending.waits found
    have length : ra.contents.length = (ea.frames.flatten ++ tail).length := congrArg _ (reads_flatten read).1
    have free_ea := ea.RecvBuffer.getFreeSize_eq
    rw [held, List.length_append, List.length_append] at length
    rw [left, capacity_ea, capacity] at free_ea
    obtain ⟨rab, stored_rab, held_rab, capacity_rab⟩ := ea.RecvBuffer.enqueue_contents b (by omega)
    obtain ⟨later, tail', read_rab⟩ := (format max decode).reads rab.contents
    obtain ⟨eb, ended_rab, rfl, capacity_eb, ending_rab, overruns_rab⟩ := ends_of_reads read_rab
    rw [held_rab, left] at read_rab
    have read_whole := read.append read_rab
    rw [← together] at read_whole
    obtain ⟨ew, ended_whole, same_frames, capacity_ew, ending_whole, -⟩ := ends_of_reads read_whole
    obtain ⟨same_left, same_exit⟩ := ending_rab.same ending_whole (by
      rw [capacity_ew, capacity_eb, capacity_rab, capacity_ea, capacity, capacity_whole])
    refine ⟨ra, whole, ea, ew, stored, stored_whole, ended, ended_whole, ended.copies.mpr first, ended_whole.copies.mpr copyable, ?_,
      fun _ => ⟨rab, eb, stored_rab, ended_rab, overruns_rab.trans ((copyable_iff read_whole).mp copyable), same_frames, same_exit, same_left⟩⟩
    -- no bytes are left to come when the first loop found the ring full
    intro leaves
    have none : b = [] := List.eq_nil_of_length_eq_zero (by have := full leaves; omega)
    subst none
    rw [List.append_nil, stored] at stored_whole
    cases stored_whole
    rw [ended.unique ended_whole, List.append_nil]
    exact ⟨leaves, rfl, rfl⟩

theorem unsegmented_iff (max : Nat) (decode : List UInt8 → Bool) (rb : RingBuffer RecvByte) {a b : List RecvByte}
    (fits : ((a.length + b.length : Nat) : Int) ≤ rb.getFreeSize) :
    Unsegmented max decode rb a b ↔ Copyable max decode (rb.contents ++ (a ++ b)) := by
  constructor
  · rintro ⟨ra, whole, ea, ew, -, stored_whole, -, ended_whole, -, copies, -⟩
    obtain ⟨ring, same, held, -⟩ := rb.enqueue_contents (a ++ b) (by rw [List.length_append]; exact fits)
    obtain rfl := Option.some.inj (stored_whole.symm.trans same)
    rw [← held]
    exact ended_whole.copies.mp copies
  · exact unsegmented max decode rb fits

/-- One run of the loop is the parser's, and pieces make no difference to it, exactly when every complete
frame that it comes to fits a packet. -/
theorem packetLoop_parses_iff (max : Nat) (decode : List UInt8 → Bool) (rb : RingBuffer RecvByte) :
    (Parses max decode rb ↔ Copyable max decode rb.contents) ∧
      ∀ a b : List RecvByte, ((a.length + b.length : Nat) : Int) ≤ rb.getFreeSize →
        (Unsegmented max decode rb a b ↔ Copyable max decode (rb.contents ++ (a ++ b))) := by
  constructor
  · exact parses_iff max decode rb
  · intro a b fits
    exact unsegmented_iff max decode rb fits

def recvBuffer : RingBuffer RecvByte := .new (fun _ => ⟨0, 0⟩) RingBuffer.defaultSize RingBuffer.defaultSize_range

/-- A frame of two bytes, cut inside its header. -/
theorem packetLoop_parses_cut_header :
    Unsegmented 0xFFFF (fun _ => true) recvBuffer
      [⟨0x77, 0⟩, ⟨2, 0⟩] [⟨0, 0⟩, ⟨0, 0⟩, ⟨0, 0⟩, ⟨1, 0⟩, ⟨2, 0⟩] :=
  ((packetLoop_parses_iff _ _ _).2 _ _ (by decide)).mpr (copyable_of_short (by decide))

def zeros (low high : UInt8) (length : Nat) : List RecvByte :=
  [⟨0x77, 0⟩, ⟨low, 0⟩, ⟨high, 0⟩, ⟨0, 0⟩, ⟨0, 0⟩] ++ List.replicate length ⟨0, 0⟩

theorem zeros_accepted {low high : UInt8} {length : Nat} (length_eq : low.toNat + 256 * high.toNat = length)
    (limit : length ≤ max) : Accepted max (fun _ => true) (zeros low high length) where
  complete := by
    refine ⟨by simp [zeros, headerSize], ?_⟩
    have header : headerLength (zeros low high length) = low.toNat + 256 * high.toNat := rfl
    rw [header, length_eq, zeros, List.length_append, List.length_replicate]
    rfl
  header := ⟨rfl, Nat.le_trans (Nat.le_of_eq length_eq) limit⟩
  decoded := rfl

/-- A frame with 1001 bytes of payload comes into an empty ring. -/
theorem long_frame_overruns : ∃ rb, recvBuffer.enqueue (zeros 0xE9 0x03 1001) = some rb ∧ ¬ Parses 0xFFFF (fun _ => true) rb := by
  have accepted : Accepted 0xFFFF (fun _ => true) (zeros 0xE9 0x03 1001) := zeros_accepted rfl (by decide)
  have length : (zeros 0xE9 0x03 1001).length = 1006 := by rw [zeros, List.length_append, List.length_replicate]; rfl
  obtain ⟨rb, stored, held, -⟩ := recvBuffer.enqueue_contents (zeros 0xE9 0x03 1001) (by rw [length]; decide)
  refine ⟨rb, stored, fun parses => ?_⟩
  have copyable := (parses_iff _ _ _).mp parses
  have whole : rb.contents = [].flatten ++ zeros 0xE9 0x03 1001 ++ [] := by
    rw [held, show recvBuffer.contents = [] from RingBuffer.new_contents _ _ _, List.append_nil]
    rfl
  have fits : headerLength (zeros 0xE9 0x03 1001) ≤ 1000 := copyable [] _ [] whole nofun accepted.toCompleteFrame
  exact absurd fits (by decide)

end WanNet.Session
