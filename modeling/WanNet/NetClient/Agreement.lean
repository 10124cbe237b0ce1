import WanNet.NetClient.PacketLoop
import WanNet.Session.PacketLoop

/-!
The packet loops of `NetClient::recvThread` and of `NetServer::iocpWorkerThread` on the same bytes.
-/

namespace WanNet.NetClient
open Session (RecvByte)

/-- The packets of a `decode` that only tells frames apart are the frames. -/
def told (decode : List UInt8 → Bool) (frame : List UInt8) : Option (List UInt8) := if decode frame then some frame else none

/-- The end of the server's loop as the client would have it. -/
def turnOf (e : Session.LoopEnd) : Turn :=
  ⟨e.frames.map (List.map RecvByte.byte), e.RecvBuffer.map RecvByte.byte, e.decrements, e.overruns⟩

theorem length_toNat (low high : UInt8) : (low.toUInt16 + 256 * high.toUInt16).toNat = low.toNat + 256 * high.toNat := by
  have lows := low.toNat_lt
  have highs := high.toNat_lt
  rw [UInt16.toNat_add, UInt16.toNat_mul, UInt8.toNat_toUInt16, UInt8.toNat_toUInt16]
  change (low.toNat + 256 * high.toNat % 2 ^ 16) % 2 ^ 16 = _
  omega

theorem read_map (bytes : List RecvByte) (long : Session.headerSize ≤ bytes.length) :
    ∃ header, NetworkHeader.read (bytes.map RecvByte.byte) = some header ∧
      (bytes[0]?).map RecvByte.byte = some header.Code ∧ header.Length.toNat = Session.headerLength bytes := by
  unfold Session.headerSize at long
  match bytes with
  | code :: low :: high :: randKey :: checkSum :: _ =>
    refine ⟨_, rfl, rfl, ?_⟩
    exact length_toNat low.byte high.byte
  | [] | [_] | [_, _] | [_, _, _] | [_, _, _, _] =>
    simp only [List.length_cons, List.length_nil] at long
    omega

theorem headerLength_le (bytes : List RecvByte) : Session.headerLength bytes ≤ 0xFFFF := by
  have small : ∀ c : Option RecvByte, (c.map fun c => c.byte.toNat).getD 0 ≤ 255 := by
    intro c
    cases c with
    | none => exact Nat.zero_le _
    | some c =>
      have := c.byte.toNat_lt
      simp only [Option.map_some, Option.getD_some]
      omega
  have low := small bytes[1]?
  have high := small bytes[2]?
  unfold Session.headerLength
  omega

/-- The one loop goes turn by turn as the other, when the limit is the one that no header passes. -/
theorem packetLoop_eq (decode : List UInt8 → Bool) {turns : Nat} {rb : RingBuffer RecvByte} {e : Session.LoopEnd}
    (ended : Session.packetLoopRun 0xFFFF decode turns rb = some e) :
    packetLoop (told decode) turns (rb.map RecvByte.byte) = turnOf e := by
  induction turns generalizing rb e with
  | zero => cases ended
  | succ turns ih =>
    have length := rb.contents_length
    have sizes : NetworkHeader.size = Session.headerSize := rfl
    rw [Session.packetLoopRun] at ended
    unfold packetLoop
    unfold Session.packetLoop at ended
    rw [sizes, RingBuffer.getUseSize_map, RingBuffer.getFreeSize_map, RingBuffer.peek_map, RingBuffer.peek_eq]
    rw [RingBuffer.peek_eq] at ended
    rcases rb.dequeue_eq Session.headerSize with ⟨short, -⟩ | ⟨enough, taken, -⟩
    · rw [if_pos (by omega)] at ended ⊢
      cases ended
      rfl
    have long : ¬ rb.getUseSize < Session.headerSize := by omega
    rw [if_neg long, taken, Option.map_some] at ended
    rw [if_neg long, taken, Option.map_some, Option.map_some, Option.bind_some]
    obtain ⟨header, read, code, len⟩ := read_map (rb.contents.take Session.headerSize) (by rw [List.length_take]; omega)
    rw [read]
    dsimp only at ended ⊢
    rw [code, ← len] at ended
    by_cases right : header.Code = NetworkHeader.code
    · have same : some header.Code = some Session.headerCode := congrArg some right
      have limit : ¬ header.Length.toNat > 0xFFFF := by
        rw [len]
        exact Nat.not_lt_of_le (headerLength_le _)
      rw [if_neg (not_not_intro same), if_neg limit] at ended
      rw [if_neg (not_not_intro right)]
      by_cases part : rb.getUseSize < Session.headerSize + header.Length.toNat
      · rw [if_pos part] at ended ⊢
        by_cases full : rb.getFreeSize ≤ 0
        · rw [if_pos full] at ended
          cases ended
          rw [decide_eq_false (Int.not_lt.mpr full)]
          rfl
        · rw [if_neg full] at ended
          cases ended
          rw [decide_eq_true (Int.not_le.mp full)]
          rfl
      rw [if_neg part, Nat.add_comm] at ended
      rw [if_neg part, RingBuffer.dequeue_map]
      rcases rb.dequeue_eq (Session.headerSize + header.Length.toNat) with ⟨less, -⟩ | ⟨-, whole, -⟩
      · omega
      rw [whole] at ended
      rw [whole, Option.map_some]
      dsimp only at ended ⊢
      by_cases overrun : Serializer.defaultSize < header.Length.toNat
      · rw [if_pos overrun] at ended ⊢
        cases ended
        rfl
      rw [if_neg overrun] at ended ⊢
      cases decoded : decode ((rb.contents.take (Session.headerSize + header.Length.toNat)).map RecvByte.byte) with
      | true =>
        rw [if_pos decoded] at ended
        obtain ⟨later, goes_on, rfl⟩ := Option.map_eq_some_iff.mp ended
        rw [told, if_pos decoded]
        dsimp only
        rw [ih goes_on]
        rfl
      | false =>
        have refused : ¬ decode ((rb.contents.take (Session.headerSize + header.Length.toNat)).map RecvByte.byte) = true := by
          rw [decoded]
          exact Bool.false_ne_true
        rw [if_neg refused] at ended
        cases ended
        rw [told, if_neg refused]
        rfl
    · have other : some header.Code ≠ some Session.headerCode := fun same => right (Option.some.inj same)
      rw [if_pos other] at ended
      rw [if_pos right]
      cases ended
      rfl

/-- How the loop ends; the bytes in the ring are turns enough. -/
def recvLoopEnd (decode : List UInt8 → Bool) (mRecvBuffer : RingBuffer UInt8) : Turn :=
  packetLoop (told decode) (mRecvBuffer.getUseSize.toNat + 1) mRecvBuffer

theorem recvLoopEnd_map (decode : List UInt8 → Bool) (rb : RingBuffer RecvByte) :
    recvLoopEnd decode (rb.map RecvByte.byte) = turnOf (Session.loopEnd 0xFFFF decode rb) := by
  unfold recvLoopEnd
  rw [RingBuffer.getUseSize_map]
  exact packetLoop_eq decode (Session.packetLoopRun_enough 0xFFFF decode rb)

/-! ### Chunk after chunk -/

/-- `Enqueue` a chunk and run the client's loop; nothing is known of what follows a failed assertion or a copy
past the end of a packet. -/
def recvChunk (decode : List UInt8 → Bool) (client : RingBuffer UInt8 × Bool) (chunk : List UInt8) :
    (RingBuffer UInt8 × Bool) × Option Turn :=
  if client.2 then (client, none)
  else
    match client.1.enqueue chunk with
    | none => (client, none)
    | some filled =>
      let turn := recvLoopEnd decode filled
      ((turn.mRecvBuffer, turn.died), some turn)

/-- `Enqueue` a chunk and run the worker's loop; after `DECREMENT_IO_COUNT` nothing is received, and nothing is
known of what follows a copy past the end of a packet. -/
def workerChunk (mMaxPayloadLength : Nat) (decode : List UInt8 → Bool) (session : RingBuffer RecvByte × Bool)
    (chunk : List RecvByte) : (RingBuffer RecvByte × Bool) × Option Session.LoopEnd :=
  if session.2 then (session, none)
  else
    match session.1.enqueue chunk with
    | none => (session, none)
    | some filled =>
      let e := Session.loopEnd mMaxPayloadLength decode filled
      ((e.RecvBuffer, e.decrements || e.overruns), some e)

/-- The client and the session hold the same ring, and have ended or not alike. -/
def SameRing (client : RingBuffer UInt8 × Bool) (session : RingBuffer RecvByte × Bool) : Prop :=
  client.1 = session.1.map RecvByte.byte ∧ client.2 = session.2

theorem chunk_alike (decode : List UInt8 → Bool) (client : RingBuffer UInt8 × Bool) (session : RingBuffer RecvByte × Bool)
    (chunk : List RecvByte) (same : SameRing client session) :
    SameRing (recvChunk decode client (chunk.map RecvByte.byte)).1 (workerChunk 0xFFFF decode session chunk).1 ∧
      (recvChunk decode client (chunk.map RecvByte.byte)).2 = ((workerChunk 0xFFFF decode session chunk).2).map turnOf := by
  obtain ⟨ring, ended⟩ := client
  obtain ⟨rb, left⟩ := session
  obtain ⟨rfl, rfl⟩ : ring = rb.map RecvByte.byte ∧ ended = left := same
  unfold recvChunk workerChunk
  dsimp only
  cases ended with
  | true => exact ⟨⟨rfl, rfl⟩, rfl⟩
  | false =>
    rw [RingBuffer.enqueue_map]
    cases rb.enqueue chunk with
    | none => exact ⟨⟨rfl, rfl⟩, rfl⟩
    | some filled =>
      simp only [Option.map_some, recvLoopEnd_map, Bool.false_eq_true, if_false]
      exact ⟨⟨rfl, rfl⟩, trivial⟩

/-- From any ring and over any chunks, the client's loop and the worker's under the limit that
`Start` sets by default give the same packets and leave the same ring after each chunk; an assertion of the
client's fails where the worker leaves for `DECREMENT_IO_COUNT`, and a frame that no packet has room for is
copied by both. -/
theorem loops_agree (decode : List UInt8 → Bool) (rb : RingBuffer RecvByte) (chunks : List (List RecvByte)) :
    let client := Machine.run (fun c chunk => recvChunk decode c (chunk.map RecvByte.byte)) (rb.map RecvByte.byte, false) chunks
    let session := Machine.run (workerChunk (Session.startMaxPayloadLength 0).toNat decode) (rb, false) chunks
    client.2 = session.2.map (Option.map turnOf) ∧ client.1.1 = session.1.1.map RecvByte.byte ∧ client.1.2 = session.1.2 := by
  intro client session
  have start : SameRing (rb.map RecvByte.byte, false) (rb, false) := ⟨rfl, rfl⟩
  obtain ⟨⟨ring, flag⟩, turns⟩ := Machine.run_simulates_map (chunk_alike decode) start chunks
  exact ⟨turns, ring, flag⟩

end WanNet.NetClient
