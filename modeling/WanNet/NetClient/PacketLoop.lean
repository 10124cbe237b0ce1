import WanNet.Lib.Framing
import WanNet.RingBuffer.Fifo
import WanNet.Serializer

/-!
The packet loop of `NetClient::recvThread`, and what it delivers of the bytes in the ring.
-/

namespace WanNet.NetClient
open Framing

/-- What a run of the loop gives to `OnReceive`, the ring it leaves, and whether it is over with a failed
assertion or with a copy past the end of a packet. -/
structure Turn where
  packets : List (List UInt8)
  mRecvBuffer : RingBuffer UInt8
  asserted : Bool
  overran : Bool

/-- Nothing is known of the process after either. -/
def Turn.died (turn : Turn) : Bool := turn.asserted || turn.overran

/-- `decode` gives the payload of a frame, or fails. Each turn takes a header off the ring, so the
bytes in it are turns enough. -/
def packetLoop (decode : List UInt8 → Option (List UInt8)) : Nat → RingBuffer UInt8 → Turn
  | 0, mRecvBuffer => ⟨[], mRecvBuffer, false, false⟩
  | turns + 1, mRecvBuffer =>
    if mRecvBuffer.getUseSize < NetworkHeader.size then ⟨[], mRecvBuffer, false, false⟩
    else
      match (mRecvBuffer.peek NetworkHeader.size).bind NetworkHeader.read with
      | none => ⟨[], mRecvBuffer, true, false⟩
      | some header =>
        if header.Code ≠ NetworkHeader.code then ⟨[], mRecvBuffer, true, false⟩
        else if mRecvBuffer.getUseSize < NetworkHeader.size + header.Length.toNat then
          ⟨[], mRecvBuffer, !decide (mRecvBuffer.getFreeSize > 0), false⟩
        else
          match mRecvBuffer.dequeue (NetworkHeader.size + header.Length.toNat) with
          | none => ⟨[], mRecvBuffer, true, false⟩
          | some (frame, rest) =>
            -- `Dequeue` copies whatever the header says
            if Serializer.defaultSize < header.Length.toNat then ⟨[], rest, false, true⟩
            else
              match decode frame with
              | none => ⟨[], rest, true, false⟩
              | some payload =>
                let later := packetLoop decode turns rest
                { later with packets := payload :: later.packets }

variable {decode : List UInt8 → Option (List UInt8)} {bytes more : List UInt8} {header : NetworkHeader} {mRecvBuffer : RingBuffer UInt8}

theorem read_none : NetworkHeader.read bytes = none ↔ bytes.length < NetworkHeader.size := by
  match bytes with
  | [] | [_] | [_, _] | [_, _, _] | [_, _, _, _] => simp [NetworkHeader.read, NetworkHeader.size]
  | _ :: _ :: _ :: _ :: _ :: _ => simp [NetworkHeader.read, NetworkHeader.size]

theorem read_append (read : NetworkHeader.read bytes = some header) : NetworkHeader.read (bytes ++ more) = some header := by
  match bytes with
  | _ :: _ :: _ :: _ :: _ :: _ => exact read

theorem read_take (bytes : List UInt8) : NetworkHeader.read (bytes.take NetworkHeader.size) = NetworkHeader.read bytes := by
  match bytes with
  | [] | [_] | [_, _] | [_, _, _] | [_, _, _, _] => rfl
  | _ :: _ :: _ :: _ :: _ :: _ => rfl

/-- What the bytes received begin with. -/
def verdict (decode : List UInt8 → Option (List UInt8)) (bytes : List UInt8) : Verdict UInt8 (List UInt8) :=
  match NetworkHeader.read bytes with
  | none => .wait
  | some header =>
    if header.Code ≠ NetworkHeader.code then .stop
    else if bytes.length < NetworkHeader.size + header.Length.toNat then .wait
    else if Serializer.defaultSize < header.Length.toNat then .stop
    else
      match decode (bytes.take (NetworkHeader.size + header.Length.toNat)) with
      | none => .stop
      | some payload => .frame payload (bytes.drop (NetworkHeader.size + header.Length.toNat))

theorem verdict_append (final : verdict decode bytes ≠ .wait) (more : List UInt8) :
    verdict decode (bytes ++ more) =
      match verdict decode bytes with
      | .frame payload rest => .frame payload (rest ++ more)
      | other => other := by
  unfold verdict at final ⊢
  cases read : NetworkHeader.read bytes with
  | none => simp [read] at final
  | some header =>
    simp only [read, read_append read] at final ⊢
    by_cases code : header.Code ≠ NetworkHeader.code
    · rw [if_pos code, if_pos code]
    · rw [if_neg code] at final ⊢
      rw [if_neg code]
      by_cases short : bytes.length < NetworkHeader.size + header.Length.toNat
      · rw [if_pos short] at final
        exact absurd rfl final
      · have long : ¬ (bytes ++ more).length < NetworkHeader.size + header.Length.toNat := by
          rw [List.length_append]
          omega
        rw [if_neg short, if_neg long, List.take_append_of_le_length (Nat.le_of_not_lt short),
          List.drop_append_of_le_length (Nat.le_of_not_lt short)]
        split
        · rfl
        · cases decode (bytes.take (NetworkHeader.size + header.Length.toNat)) <;> rfl

def format (decode : List UInt8 → Option (List UInt8)) : Format UInt8 (List UInt8) where
  next := verdict decode
  shrinks {bytes p rest} is := by
    unfold verdict at is
    split at is
    · cases is
    next header read =>
      have long : ¬ bytes.length < NetworkHeader.size := fun short => by rw [read_none.mpr short] at read; cases read
      split_ifs at is
      split at is
      · cases is
      · cases is
        simp only [NetworkHeader.size] at *
        rw [List.length_drop]
        omega
  frame_append more is := by rw [verdict_append (by rw [is]; nofun), is]
  stop_append more is := by rw [verdict_append (by rw [is]; nofun), is]

/-- The loop delivers the frames that the bytes in the ring begin with, and leaves the rest there. -/
theorem packetLoop_scan (decode : List UInt8 → Option (List UInt8)) {turns : Nat} (enough : mRecvBuffer.contents.length < turns) :
    (packetLoop decode turns mRecvBuffer).packets = ((format decode).scan mRecvBuffer.contents).1 ∧
      ((packetLoop decode turns mRecvBuffer).died = false →
        ((format decode).scan mRecvBuffer.contents).2 = some (packetLoop decode turns mRecvBuffer).mRecvBuffer.contents) := by
  induction turns generalizing mRecvBuffer with
  | zero => omega
  | succ turns ih =>
    have length := mRecvBuffer.contents_length
    unfold packetLoop
    by_cases short : mRecvBuffer.getUseSize < NetworkHeader.size
    · have waits : (format decode).next mRecvBuffer.contents = .wait := by
        have none : NetworkHeader.read mRecvBuffer.contents = none := read_none.mpr (by omega)
        simp [format, verdict, none]
      rw [if_pos short, scan_wait waits]
      exact ⟨rfl, fun _ => rfl⟩
    · have peeked : mRecvBuffer.peek NetworkHeader.size = some (mRecvBuffer.contents.take NetworkHeader.size) := by
        rw [RingBuffer.peek, if_neg short, mRecvBuffer.copyOut_eq (by omega)]
      rw [if_neg short, peeked, Option.bind_some, read_take]
      have next : (format decode).next mRecvBuffer.contents = verdict decode mRecvBuffer.contents := rfl
      unfold verdict at next
      cases read : NetworkHeader.read mRecvBuffer.contents with
      | none =>
        have := read_none.mp read
        omega
      | some header =>
        simp only [read] at next ⊢
        by_cases code : header.Code ≠ NetworkHeader.code
        · rw [if_pos code] at next ⊢
          rw [scan_stop next]
          exact ⟨rfl, nofun⟩
        rw [if_neg code] at next ⊢
        by_cases part : mRecvBuffer.getUseSize < NetworkHeader.size + header.Length.toNat
        · rw [if_pos (by omega)] at next
          rw [if_pos part, scan_wait next]
          exact ⟨rfl, fun _ => rfl⟩
        rw [if_neg (by omega)] at next
        rw [if_neg part]
        cases taken : mRecvBuffer.dequeue (NetworkHeader.size + header.Length.toNat) with
        | none =>
          have := (mRecvBuffer.dequeue_isSome (n := NetworkHeader.size + header.Length.toNat)).mpr (by omega)
          simp [taken] at this
        | some result =>
          obtain ⟨frame, rest⟩ := result
          obtain ⟨rfl, left⟩ := RingBuffer.dequeue_contents taken
          simp only
          by_cases overrun : Serializer.defaultSize < header.Length.toNat
          · rw [if_pos overrun] at next ⊢
            rw [scan_stop next]
            exact ⟨rfl, nofun⟩
          rw [if_neg overrun] at next ⊢
          cases decoded : decode (mRecvBuffer.contents.take (NetworkHeader.size + header.Length.toNat)) with
          | none =>
            rw [decoded] at next
            rw [scan_stop next]
            exact ⟨rfl, nofun⟩
          | some payload =>
            simp only [decoded] at next
            have fewer : rest.contents.length < turns := by
              have := congrArg List.length left
              rw [List.length_drop, NetworkHeader.size] at this
              simp only [NetworkHeader.size] at *
              omega
            rw [scan_frame next, ← left]
            exact ⟨congrArg _ (ih fewer).1, (ih fewer).2⟩

end WanNet.NetClient
