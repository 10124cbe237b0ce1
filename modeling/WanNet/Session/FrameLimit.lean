import WanNet.Session.PacketLoop

/-!
Frames that arrive in pieces, and the longest one that gets through a `RecvBuffer` of the default
capacity into a packet.
-/

namespace WanNet.Session
open Framing

variable {max : Nat} {decode : List UInt8 → Bool} {rb : RingBuffer RecvByte} {frame bytes : List RecvByte}

/-- The packet loop after each piece, until it leaves for `DECREMENT_IO_COUNT` or a copy runs past the end
of a packet; `none` when a piece was longer than `GetFreeSize()` as it arrived. -/
def receivePieces (max : Nat) (decode : List UInt8 → Bool) (rb : RingBuffer RecvByte) : List (List RecvByte) → Option LoopEnd
  | [] => some ⟨[], rb, false, false⟩
  | piece :: pieces =>
    match rb.enqueue piece with
    | none => none
    | some filled =>
      let e := loopEnd max decode filled
      if e.decrements || e.overruns then some e
      else (receivePieces max decode e.RecvBuffer pieces).map fun later => { later with frames := e.frames ++ later.frames }

/-- However the frame is cut into pieces that fit as they arrive, it is delivered after the last one
and the loop never leaves. -/
def Delivered (max : Nat) (decode : List UInt8 → Bool) (rb : RingBuffer RecvByte) (frame : List RecvByte) : Prop :=
  ∀ pieces : List (List RecvByte), pieces.flatten = frame → (∀ piece ∈ pieces, piece ≠ []) →
    ∀ e, receivePieces max decode rb pieces = some e → e.frames = [frame] ∧ e.decrements = false ∧ e.overruns = false

/-- A piece of a frame is waited for, unless it fills the ring. -/
theorem loopEnd_part (accepted : Accepted max decode frame) (held : rb.contents = bytes) (begins : bytes <+: frame)
    (less : bytes.length < frame.length) :
    (loopEnd max decode rb).frames = [] ∧ (loopEnd max decode rb).RecvBuffer.contents = bytes ∧
      (loopEnd max decode rb).RecvBuffer.mCapacity = rb.mCapacity ∧
      (loopEnd max decode rb).overruns = false ∧ ((loopEnd max decode rb).decrements = true → rb.getFreeSize ≤ 0) ∧
      (headerSize ≤ bytes.length → rb.getFreeSize ≤ 0 → (loopEnd max decode rb).decrements = true) := by
  obtain ⟨later, rfl⟩ := begins
  have waits : beginning max decode bytes = if bytes.length < headerSize then .short else .part := by
    unfold beginning
    split
    · rfl
    · rename_i long
      have good := (goodHeader_append max _ (Nat.le_of_not_lt long) later).mp accepted.header
      have length := headerLength_append _ (Nat.le_of_not_lt long) later
      have whole := accepted.complete.2
      rw [if_neg (not_not_intro good), if_pos (by omega)]
  have read : (format max decode).Reads rb.contents [] bytes := by
    rw [held]
    refine .still fun p rest frame => ?_
    obtain ⟨n, found, -, -⟩ := verdict_frame frame
    rw [waits] at found
    split at found <;> cases found
  obtain ⟨e, ended, no_frames, capacity, ending, overruns⟩ := ends_of_reads read
  obtain rfl := (loopEnd_ends max decode rb).unique ended
  have copies : (loopEnd max decode rb).overruns = false := by
    rw [overruns, overrunsAt, waits]
    split_ifs <;> rfl
  have free := rb.getFreeSize_eq
  have free' := (loopEnd max decode rb).RecvBuffer.getFreeSize_eq
  unfold EndsAt at ending
  by_cases short : bytes.length < headerSize
  · rw [waits, if_pos short] at ending
    refine ⟨no_frames, ending.1, capacity, copies, fun leaves => ?_, fun long => by omega⟩
    rw [ending.2] at leaves
    cases leaves
  · rw [waits, if_neg short] at ending
    rw [ending.1, capacity, ← held, ← free] at free'
    rw [free'] at ending
    exact ⟨no_frames, ending.1, capacity, copies, fun leaves => of_decide_eq_true (ending.2 ▸ leaves),
      fun _ full => ending.2.trans (decide_eq_true full)⟩

theorem loopEnd_whole (accepted : Accepted max decode frame) (fits : FitsPacket frame) (held : rb.contents = frame) :
    (loopEnd max decode rb).frames = [frame] ∧ (loopEnd max decode rb).decrements = false ∧ (loopEnd max decode rb).overruns = false := by
  have found := beginning_accepted accepted fits []
  have empty : beginning max decode [] = .short := by
    unfold beginning
    exact if_pos (by decide)
  rw [List.append_nil] at found
  have whole : verdict max decode frame = .frame frame [] := by
    unfold verdict
    rw [found]
    dsimp only
    rw [List.take_length, List.drop_length]
  have read : (format max decode).Reads rb.contents [frame] [] := by
    rw [held]
    refine .frame whole (.still fun p rest other => ?_)
    have other : verdict max decode [] = .frame p rest := other
    obtain ⟨n, more, -, -⟩ := verdict_frame other
    rw [empty] at more
    cases more
  obtain ⟨e, ended, frames, -, ending, overruns⟩ := ends_of_reads read
  obtain rfl := (loopEnd_ends max decode rb).unique ended
  unfold EndsAt at ending
  unfold overrunsAt at overruns
  rw [empty] at ending overruns
  exact ⟨frames, ending.2, overruns⟩

/-- The last turn at a frame that stands in the ring whole copies it. -/
theorem loopEnd_unfit (whole : CompleteFrame max frame) (unfit : ¬ FitsPacket frame) (held : rb.contents = frame) :
    (loopEnd max decode rb).overruns = true := by
  have ended := loopEnd_ends max decode rb
  refine Bool.not_eq_false _ ▸ fun copies => ?_
  have copyable := ended.copies.mp copies
  exact unfit (copyable [] frame [] (by simp [held]) (by simp) whole)

theorem receivePieces_delivers (accepted : Accepted max decode frame) (fits : FitsPacket frame)
    (limit : (frame.length : Int) ≤ rb.mCapacity - 1) {pieces : List (List RecvByte)}
    (held : rb.contents ++ pieces.flatten = frame) (some_left : pieces ≠ []) (some_bytes : ∀ piece ∈ pieces, piece ≠ []) {e : LoopEnd}
    (received : receivePieces max decode rb pieces = some e) : e.frames = [frame] ∧ e.decrements = false ∧ e.overruns = false := by
  induction pieces generalizing rb e with
  | nil => exact absurd rfl some_left
  | cons piece pieces ih =>
    rw [List.flatten_cons, ← List.append_assoc] at held
    unfold receivePieces at received
    cases stored : rb.enqueue piece with
    | none =>
      rw [stored] at received
      cases received
    | some filled =>
      rw [stored] at received
      dsimp only at received
      have room : (piece.length : Int) ≤ rb.getFreeSize := by
        by_contra less
        have refused := rb.enqueue_none.mpr (Int.lt_of_not_ge less)
        rw [stored] at refused
        cases refused
      obtain ⟨ring, same, contents, capacity⟩ := rb.enqueue_contents _ room
      obtain rfl : filled = ring := by rw [stored] at same; exact Option.some.inj same
      have length := congrArg List.length held
      rw [List.length_append, ← contents] at length
      cases pieces with
      | nil =>
        rw [List.flatten_nil, List.append_nil, ← contents] at held
        obtain ⟨frames, stays, copies⟩ := loopEnd_whole accepted fits held
        rw [stays, copies, receivePieces] at received
        cases received
        exact ⟨by rw [frames]; rfl, rfl, rfl⟩
      | cons next pieces =>
        have more : 0 < (next :: pieces).flatten.length := by
          have := List.length_pos_iff.mpr (some_bytes next (by simp))
          rw [List.flatten_cons, List.length_append]
          omega
        rw [← contents] at held
        obtain ⟨none_yet, left, capacity', copies, leaves, -⟩ :=
          loopEnd_part accepted rfl ⟨_, held⟩ (by omega)
        have free := filled.getFreeSize_eq
        have stays : (loopEnd max decode filled).decrements = false := by
          cases exits : (loopEnd max decode filled).decrements with
          | false => rfl
          | true =>
            have := leaves exits
            omega
        rw [stays, copies] at received
        obtain ⟨later, rest, rfl⟩ := Option.map_eq_some_iff.mp received
        rw [none_yet]
        exact ih (by rw [capacity', capacity]; exact limit) (by rw [left]; exact held) (by simp)
          (fun p member => some_bytes p (List.mem_cons_of_mem _ member)) rest

/-- A frame that does not fit leaves the loop as soon as it has filled the ring. -/
theorem receivePieces_leaves (accepted : Accepted max decode frame) (empty : rb.contents = [])
    (large : rb.mCapacity = RingBuffer.defaultSize) (beyond : RingBuffer.defaultSize - 1 < frame.length) :
    ¬ Delivered max decode rb frame := by
  intro delivered
  have free := rb.getFreeSize_eq
  rw [empty, large, List.length_nil] at free
  have size : RingBuffer.defaultSize = 8192 := rfl
  have first : (frame.take 8191).length = 8191 := by
    rw [List.length_take]
    omega
  have second : (frame.drop 8191).length ≠ 0 := by
    rw [List.length_drop]
    omega
  obtain ⟨filled, stored, held, capacity⟩ := rb.enqueue_contents (frame.take 8191) (by omega)
  rw [empty, List.nil_append] at held
  have free' := filled.getFreeSize_eq
  rw [held, capacity, large] at free'
  obtain ⟨-, -, -, -, -, leaves⟩ := loopEnd_part accepted held (List.take_prefix _ _) (by omega)
  have exits := leaves (by rw [first]; decide) (by omega)
  have received : receivePieces max decode rb [frame.take 8191, frame.drop 8191] = some (loopEnd max decode filled) := by
    rw [receivePieces, stored]
    dsimp only
    rw [exits, Bool.true_or, if_pos rfl]
  have pieces : ∀ piece ∈ [frame.take 8191, frame.drop 8191], piece ≠ [] := by
    intro piece member none
    subst none
    rcases List.mem_cons.mp member with is | is
    · rw [← is] at first
      cases first
    · rw [← List.mem_singleton.mp is] at second
      exact second rfl
  have whole : [frame.take 8191, frame.drop 8191].flatten = frame := by
    rw [List.flatten_cons, List.flatten_cons, List.flatten_nil, List.append_nil, List.take_append_drop]
  have stays := (delivered _ whole pieces _ received).2.1
  rw [exits] at stays
  cases stays

/-- A frame that fits the ring but no packet is copied past the end of one. -/
theorem receivePieces_overruns (accepted : Accepted max decode frame) (empty : rb.contents = [])
    (large : rb.mCapacity = RingBuffer.defaultSize) (unfit : ¬ FitsPacket frame) (stands : frame.length ≤ 8191) :
    ¬ Delivered max decode rb frame := by
  intro delivered
  have free := rb.getFreeSize_eq
  rw [empty, large, List.length_nil] at free
  have size : RingBuffer.defaultSize = 8192 := rfl
  have header := accepted.complete.1
  obtain ⟨filled, stored, held, -⟩ := rb.enqueue_contents frame (by omega)
  rw [empty, List.nil_append] at held
  have overruns : (loopEnd max decode filled).overruns = true := loopEnd_unfit accepted.toCompleteFrame unfit held
  have received : receivePieces max decode rb [frame] = some (loopEnd max decode filled) := by
    rw [receivePieces, stored]
    dsimp only
    rw [overruns, Bool.or_true, if_pos rfl]
  have pieces : ∀ piece ∈ [frame], piece ≠ [] := by
    intro piece member none
    rw [none] at member
    rw [← List.mem_singleton.mp member] at header
    exact absurd header (by decide)
  have copies := (delivered [frame] (by simp) pieces _ received).2.2
  rw [overruns] at copies
  cases copies

/-- Under every limit that a started server can have, an acceptable frame is delivered however it is
cut exactly when its payload fits a packet. -/
theorem delivered_iff (mMaxPayloadLength : UInt16) {decode : List UInt8 → Bool} {rb : RingBuffer RecvByte}
    {frame : List RecvByte} (capacity : rb.mCapacity = RingBuffer.defaultSize) (empty : rb.contents = [])
    (accepted : Accepted (startMaxPayloadLength mMaxPayloadLength).toNat decode frame) :
    Delivered (startMaxPayloadLength mMaxPayloadLength).toNat decode rb frame ↔ headerLength frame ≤ Serializer.defaultSize := by
  have length := accepted.complete.2
  have packet : Serializer.defaultSize = 1000 := rfl
  have header : headerSize = 5 := rfl
  have ring : RingBuffer.defaultSize = 8192 := rfl
  constructor
  · intro delivered
    by_contra unfit
    by_cases stands : frame.length ≤ 8191
    · exact receivePieces_overruns accepted empty capacity unfit stands delivered
    · exact receivePieces_leaves accepted empty capacity (by omega) delivered
  · intro fits pieces whole some_bytes e received
    have some_left : pieces ≠ [] := by
      rintro rfl
      have header := accepted.complete.1
      rw [← whole] at header
      exact absurd header (by decide)
    exact receivePieces_delivers accepted fits (by omega) (by rw [empty]; exact whole) some_left some_bytes received

theorem delivered_iff_three_zeros :
    Delivered (startMaxPayloadLength 0).toNat (fun _ => true) recvBuffer (zeros 3 0 3) :=
  (delivered_iff 0 rfl (RingBuffer.new_contents _ _ _) (zeros_accepted rfl (by decide))).mpr (by decide)

/-- 8187 bytes of payload are within the default limit and are never delivered. -/
theorem large_frame_not_delivered :
    Accepted (startMaxPayloadLength 0).toNat (fun _ => true) (zeros 0xFB 0x1F 8187) ∧
      ¬ Delivered (startMaxPayloadLength 0).toNat (fun _ => true) recvBuffer (zeros 0xFB 0x1F 8187) := by
  have accepted : Accepted (startMaxPayloadLength 0).toNat (fun _ => true) (zeros 0xFB 0x1F 8187) :=
    zeros_accepted rfl (by decide)
  refine ⟨accepted, receivePieces_leaves accepted (RingBuffer.new_contents _ _ _) rfl ?_⟩
  rw [zeros, List.length_append, List.length_replicate]
  decide

end WanNet.Session
