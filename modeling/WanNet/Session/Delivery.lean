import WanNet.Serializer.Wire
import WanNet.Session.PacketLoop
import WanNet.Session.Stream

/-!
A client that sends good frames, each of which the ring has room for: the session loses nothing of what
comes in, and delivers every frame that has come in whole.
-/

namespace WanNet.Session
open Transition Threads ReleaseCount Framing

variable {cfg : Config} {s s' u : Slot} {role : Role} {ans : Answer} {pc pc' : Pc} {t : Thread} {i j n max : Nat} {l : Label}
  {decode : List UInt8 → Bool} {frame p q rest bytes : List UInt8} {frames packets : List (List UInt8)}

/-! ### Good frames, as bytes -/

def ofBytes (bytes : List UInt8) : List RecvByte := bytes.map fun byte => ⟨byte, 0⟩

@[simp] theorem ofBytes_byte (bytes : List UInt8) : (ofBytes bytes).map RecvByte.byte = bytes := by
  unfold ofBytes
  rw [List.map_map]
  exact List.map_id _

/-- A whole frame that the checks of the packet loop pass and that a packet has room for. -/
structure Proper (max : Nat) (decode : List UInt8 → Bool) (frame : List UInt8) : Prop extends Accepted max decode (ofBytes frame) where
  fits : FitsPacket (ofBytes frame)

theorem headerLength_bytes {a b : List RecvByte} (same : a.map RecvByte.byte = b.map RecvByte.byte) : headerLength a = headerLength b := by
  have at_ (k : Nat) : (a[k]?).map RecvByte.byte = (b[k]?).map RecvByte.byte := by
    rw [← List.getElem?_map, ← List.getElem?_map, same]
  have low : (a[1]?).map (fun c => c.byte.toNat) = (b[1]?).map (fun c => c.byte.toNat) := by
    have := congrArg (Option.map UInt8.toNat) (at_ 1)
    simpa [Option.map_map, Function.comp_def] using this
  have high : (a[2]?).map (fun c => c.byte.toNat) = (b[2]?).map (fun c => c.byte.toNat) := by
    have := congrArg (Option.map UInt8.toNat) (at_ 2)
    simpa [Option.map_map, Function.comp_def] using this
  unfold headerLength
  rw [low, high]

/-- The origin of a byte is none of the loop's business. -/
theorem accepted_bytes {a b : List RecvByte} (same : a.map RecvByte.byte = b.map RecvByte.byte) (accepted : Accepted max decode a) :
    Accepted max decode b := by
  have length : a.length = b.length := by
    have := congrArg List.length same
    rwa [List.length_map, List.length_map] at this
  have header := headerLength_bytes same
  have first : (a[0]?).map RecvByte.byte = (b[0]?).map RecvByte.byte := by
    rw [← List.getElem?_map, ← List.getElem?_map, same]
  obtain ⟨⟨⟨long, whole⟩, code, fits⟩, decoded⟩ := accepted
  refine ⟨⟨⟨by omega, by omega⟩, ?_, ?_⟩, ?_⟩
  · rw [← first]
    exact code
  · rw [← header]
    exact fits
  · rw [← same]
    exact decoded

theorem fitsPacket_bytes {a b : List RecvByte} (same : a.map RecvByte.byte = b.map RecvByte.byte) (fits : FitsPacket a) : FitsPacket b := by
  unfold FitsPacket at *
  rwa [← headerLength_bytes same]

theorem proper_of_accepted {frame : List RecvByte} (accepted : Accepted max decode frame) (fits : FitsPacket frame) :
    Proper max decode (frame.map RecvByte.byte) :=
  ⟨accepted_bytes (by rw [ofBytes_byte]) accepted, fitsPacket_bytes (by rw [ofBytes_byte]) fits⟩

theorem Proper.long (proper : Proper max decode frame) : headerSize ≤ frame.length := by
  have := proper.complete.1
  rwa [ofBytes, List.length_map] at this

/-- Two good frames that begin the same bytes are the same: their headers say where they end. -/
theorem Proper.unique (one : Proper max decode p) (other : Proper max decode q) (begins : p <+: bytes) (begins' : q <+: bytes) : p = q := by
  obtain ⟨after, rfl⟩ := begins
  obtain ⟨after', same⟩ := begins'
  have one_long := one.long
  have other_long := other.long
  have header : headerLength (ofBytes p) = headerLength (ofBytes q) := by
    have left := headerLength_append (ofBytes p) one.complete.1 (ofBytes after)
    have right := headerLength_append (ofBytes q) other.complete.1 (ofBytes after')
    rw [← left, ← right]
    apply headerLength_bytes
    simp only [List.map_append, ofBytes_byte, same]
  have length : p.length = q.length := by
    have one_whole := one.complete.2
    have other_whole := other.complete.2
    rw [ofBytes, List.length_map] at one_whole other_whole
    simp only [ofBytes] at header one_whole other_whole
    omega
  exact (List.append_inj same length.symm).1.symm

/-- Good frames at the beginning of a stream of good frames are the first of them. -/
theorem proper_begins (proper : ∀ p ∈ packets, Proper max decode p) (sent : ∀ f ∈ frames, Proper max decode f)
    (begins : packets.flatten ++ rest <+: frames.flatten) :
    packets <+: frames ∧ rest <+: (frames.drop packets.length).flatten := by
  induction packets generalizing frames with
  | nil => exact ⟨List.nil_prefix, by simpa using begins⟩
  | cons p packets ih =>
    have mine := proper p List.mem_cons_self
    rw [List.flatten_cons, List.append_assoc] at begins
    cases frames with
    | nil =>
      have none := List.prefix_nil.mp begins
      have long := mine.long
      have := congrArg List.length none
      rw [List.length_append, List.length_nil, headerSize] at *
      omega
    | cons f frames =>
      have same : p = f := mine.unique (sent f List.mem_cons_self) ((List.prefix_append _ _).trans begins)
        (by rw [List.flatten_cons]; exact List.prefix_append _ _)
      subst same
      rw [List.flatten_cons, List.prefix_append_right_inj] at begins
      obtain ⟨first, later⟩ := ih (fun q member => proper q (List.mem_cons_of_mem _ member))
        (fun g member => sent g (List.mem_cons_of_mem _ member)) begins
      exact ⟨(List.prefix_cons_inj p).mpr first, by simpa using later⟩

/-- What a ring that holds the beginning of good frames begins with. -/
theorem beginning_proper {contents : List RecvByte} (sent : ∀ f ∈ frames, Proper max decode f)
    (begins : contents.map RecvByte.byte <+: frames.flatten) :
    (∃ f ∈ frames.head?, f <+: contents.map RecvByte.byte ∧ beginning max decode contents = .frame f.length) ∨
      ((∀ f ∈ frames.head?, contents.length < f.length) ∧ (frames = [] → contents = []) ∧
        (beginning max decode contents = .short ∨ beginning max decode contents = .part)) := by
  cases frames with
  | nil =>
    have none : contents = [] := by simpa using List.prefix_nil.mp begins
    subst none
    exact .inr ⟨by simp, fun _ => rfl, .inl rfl⟩
  | cons f frames =>
    have proper := sent f List.mem_cons_self
    rw [List.flatten_cons] at begins
    by_cases whole : f <+: contents.map RecvByte.byte
    · refine .inl ⟨f, rfl, whole, ?_⟩
      have length : f.length ≤ contents.length := by
        have := whole.length_le
        rwa [List.length_map] at this
      have front : (contents.take f.length).map RecvByte.byte = f := by
        rw [List.map_take]
        exact (List.prefix_iff_eq_take.mp whole).symm
      have same : (ofBytes f).map RecvByte.byte = (contents.take f.length).map RecvByte.byte := by rw [front, ofBytes_byte]
      have accepted : Accepted max decode (contents.take f.length) := accepted_bytes same proper.toAccepted
      have is := beginning_accepted accepted (fitsPacket_bytes same proper.fits) (contents.drop f.length)
      rwa [List.take_append_drop, List.length_take, Nat.min_eq_left length] at is
    · have inside : contents.map RecvByte.byte <+: f :=
        (List.prefix_or_prefix_of_prefix begins (List.prefix_append _ _)).resolve_right whole
      obtain ⟨after, is⟩ := inside
      have shorter : contents.length < f.length := by
        have := congrArg List.length is
        rw [List.length_append, List.length_map] at this
        have : after ≠ [] := by
          rintro rfl
          rw [List.append_nil] at is
          exact whole (is ▸ List.prefix_refl _)
        have := List.length_pos_iff.mpr this
        omega
      refine .inr ⟨by simpa using shorter, by simp, ?_⟩
      by_cases short : contents.length < headerSize
      · exact .inl (if_pos short)
      · have same : (contents ++ ofBytes after).map RecvByte.byte = (ofBytes f).map RecvByte.byte := by
          rw [List.map_append, ofBytes_byte, ofBytes_byte, is]
        have whole := accepted_bytes same.symm proper.toAccepted
        have good := (goodHeader_append max contents (Nat.le_of_not_lt short) (ofBytes after)).mp whole.header
        have header := headerLength_append contents (Nat.le_of_not_lt short) (ofBytes after)
        have length := whole.complete.2
        rw [header, List.length_append] at length
        have total : contents.length + (ofBytes after).length = f.length := by
          rw [← is, List.length_append, List.length_map, ofBytes, List.length_map]
        refine .inr ?_
        unfold beginning
        rw [if_neg short, if_neg (not_not_intro good), if_pos (by omega)]

/-- The loop delivers or waits: the session is not closed, and no packet is overrun. -/
def Turn.goesOn : Turn → Bool
  | .wait | .deliver _ _ => true
  | .disconnect _ | .overrun _ => false

theorem packetLoop_stays {rb : RingBuffer RecvByte} (sent : ∀ f ∈ frames, Proper max decode f ∧ (f.length : Int) < rb.mCapacity)
    (begins : rb.contents.map RecvByte.byte <+: frames.flatten) : (packetLoop max decode rb).goesOn = true := by
  rw [packetLoop_beginning]
  rcases beginning_proper (fun f member => (sent f member).1) begins with ⟨f, -, -, is⟩ | ⟨shorter, none, is | is⟩
  · rw [is]
    rfl
  · rw [is]
    rfl
  · have length := rb.contents_length
    have room : ¬ rb.getFreeSize ≤ 0 := by
      unfold RingBuffer.getFreeSize
      cases frames with
      | nil =>
        have empty := none rfl
        rw [empty] at is
        cases is
      | cons f frames =>
        have fits := (sent f List.mem_cons_self).2
        have := shorter f rfl
        omega
    rw [is]
    simp [room, Turn.goesOn]

/-! ### Steps that lose nothing -/

def Roomy (s : Slot) : Label → Prop
  | .thread i _ =>
    match (s.threads[i]?).map Thread.pc with
    | some (.recvDoneMove n) => (n : Int) ≤ s.RecvBuffer.getFreeSize
    | _ => True
  | _ => True

instance : Decidable (Roomy s l) := by
  unfold Roomy
  split
  · split <;> infer_instance
  · infer_instance

/-- Bytes are added behind, a packet goes first, or all stays as it is. -/
def Keeps (before after : List RecvByte) (e : Option Happening) : Prop :=
  match e with
  | some (.received bytes) => after.map RecvByte.byte = before.map RecvByte.byte ++ bytes
  | some (.receiveBegins packet) => before.map RecvByte.byte = packet ++ after.map RecvByte.byte
  | _ => after = before

theorem keeps_same {before after : List RecvByte} {e : Option Happening} (same : after = before) (silent : Silent e) :
    Keeps before after e := by
  rcases e with _ | ⟨_ | _ | bytes | packet | _ | _⟩
  case some.received => exact absurd rfl (silent bytes []).1
  case some.receiveBegins => exact absurd rfl (silent [] packet).2
  all_goals exact same

theorem keeps_silent {before after : List RecvByte} {e : Option Happening} (keeps : Keeps before after e) (silent : Silent e) :
    after = before := by
  rcases e with _ | ⟨_ | _ | bytes | packet | _ | _⟩
  case some.received => exact absurd rfl (silent bytes []).1
  case some.receiveBegins => exact absurd rfl (silent [] packet).2
  all_goals exact keeps

theorem moveRear_keeps (rb : RingBuffer RecvByte) (posted : (n : Int) ≤ rb.getDirectEnqueueSize) (room : (n : Int) ≤ rb.getFreeSize) :
    ((rb.moveRear n).getD rb).contents = rb.contents ++ cells rb.mBuffer rb.mRear n := by
  have length : (cells rb.mBuffer rb.mRear n).length = n := by simp [cells]
  rcases Nat.eq_zero_or_pos n with rfl | some_bytes
  · rcases rb.moveRear_contents posted with same | emptied
    · exact same
    · -- the rear stays where it is
      have rear := rb.rear_range
      have still : (rb.moveRear 0).getD rb = rb := by
        have stays := tmod_wrap (c := rb.mCapacity) rear.1 (by omega)
        unfold RingBuffer.moveRear
        split
        · rfl
        · simp [RingBuffer.advanceRear, stays, rear.2]
      rw [still]
      simp [cells]
  · have received : (rb.moveRear n).getD rb = rb.receive (cells rb.mBuffer rb.mRear n) := by
      simp only [RingBuffer.receive, RingBuffer.store_cells, length]
    rw [received]
    exact rb.receive_contents (by omega) (by omega) (by omega)

theorem next_retains (h : next cfg s role ans pc = some (u, pc')) (receives : receiving pc = 1) (cleared : uncleared pc = 0)
    (idle : s.recvIo = []) (reading : Reading s.RecvBuffer sock pc) (room : ∀ n, pc = .recvDoneMove n → (n : Int) ≤ s.RecvBuffer.getFreeSize)
    (stays : pc = .recvLoop → (packetLoop cfg.mMaxPayloadLength cfg.decode s.RecvBuffer).goesOn = true) :
    Keeps (holding s pc) (holding u pc') ((pc.happening s ans).map Prod.snd) := by
  have carries := next_carries h receives cleared idle reading
  cases next_moves h with
  | wsaRecv buf len answer =>
    rw [answer]
    show holding _ _ = holding _ _
    simp [holding, Pc.dequeued, Pc.arrived, RecvIo.arrived, idle]
  | wsaRecvAtOnce buf len data answer short =>
    subst answer
    exact carries
  | wsaRecvFails buf len answer =>
    rw [answer]
    show holding _ _ = holding _ _
    simp [holding, Pc.dequeued, Pc.arrived]
  | recvDoneMove n =>
    show holding _ _ = holding _ _
    simp [holding, Pc.dequeued, Pc.arrived, idle, moveRear_keeps s.RecvBuffer reading.1 (room n rfl)]
  | recvLoopEnds ring turn =>
    have on := stays rfl
    rw [turn] at on
    cases on
  | recvLoop frame ring turn =>
    show holding _ _ = holding _ _
    simp [holding, Pc.dequeued, Pc.arrived, idle, packetLoop_takes turn]
  | onReceive frame => exact carries
  | _ =>
    first
      | cases receives; done
      | cases cleared; done
      | (show holding _ _ = holding _ _
         simp [holding, Pc.dequeued, Pc.arrived])

theorem waiting_outside (inc : Incoming s) (inc' : Incoming s') (h : step cfg s l = some s') (outside : ∀ i ans, l ≠ .thread i ans) :
    Keeps (waiting s) (waiting s') ((happening s l).map Prod.snd) := by
  have carries := carries_outside inc h outside inc'
  have joined (u : Slot) (is : waiting s = [] ++ waiting u) : waiting u = waiting s := is.symm
  cases l with
  | accept count sock address =>
    obtain ⟨-, rfl⟩ := step_accept h
    exact joined _ (waiting_join rfl rfl rfl ⟨rfl, rfl⟩)
  | call call sessionID =>
    obtain rfl := Option.some.inj h
    exact joined _ (waiting_join rfl rfl rfl ⟨rfl, rfl⟩)
  | recvCompletes j data => exact carries
  | recvFails j =>
    obtain ⟨io', at_j', pending⟩ := recv_pending h (.inr rfl)
    obtain ⟨io, at_j, rfl⟩ := step_recvFails h
    obtain rfl := Option.some.inj (at_j'.symm.trans at_j)
    have lt := (List.getElem?_eq_some_iff.mp at_j).1
    show waiting _ = waiting _
    rw [inc.waiting_eq at_j, inc'.waiting_eq (List.getElem?_set_self lt), pending]
    rfl
  | sendCompletes j =>
    obtain ⟨io, -, rfl⟩ := step_sendCompletes h
    rfl
  | sendFails j =>
    obtain ⟨io, -, rfl⟩ := step_sendFails h
    rfl
  | workRecv j =>
    obtain ⟨io, success, n, at_j, status, rfl⟩ := step_workRecv h
    obtain ⟨only, rfl, idle⟩ := inc.only at_j
    have none := List.flatMap_eq_nil_iff.mpr fun t member => (empty_aside s.RecvBuffer (idle t member)).1
    have none' := List.flatMap_eq_nil_iff.mpr fun t member => (empty_aside s.RecvBuffer (idle t member)).2
    show waiting _ = waiting _
    rw [inc.waiting_eq at_j]
    unfold waiting
    rw [List.flatMap_append, List.flatMap_append, none, none', only]
    cases success <;> simp [RecvIo.arrived, status, Pc.dequeued, Pc.arrived]
  | workSend j =>
    obtain ⟨io, success, n, -, -, rfl⟩ := step_workSend h
    exact joined _ (waiting_join rfl rfl rfl (by cases success <;> exact ⟨rfl, rfl⟩))
  | workRelease j =>
    obtain ⟨sessionID, -, rfl⟩ := step_workRelease h
    exact joined _ (waiting_join rfl rfl rfl ⟨rfl, rfl⟩)
  | thread i ans => exact absurd rfl (outside i ans)

/-! ### What the packets are -/

theorem packetLoop_accepts {rb ring : RingBuffer RecvByte} {frame : List RecvByte} (turn : packetLoop max decode rb = .deliver frame ring) :
    Accepted max decode frame ∧ FitsPacket frame := by
  rw [packetLoop_beginning] at turn
  cases is : beginning max decode rb.contents with
  | frame n =>
    rw [is] at turn
    cases turn
    exact (beginning_frame is).2.2
  | part =>
    rw [is] at turn
    dsimp only at turn
    split at turn <;> cases turn
  | _ =>
    rw [is] at turn
    cases turn

theorem packetLoop_mCapacity {rb ring : RingBuffer RecvByte} (turn : packetLoop max decode rb = .disconnect ring ∨
    ∃ frame, packetLoop max decode rb = .deliver frame ring) : ring.mCapacity = rb.mCapacity := by
  rw [packetLoop_beginning] at turn
  cases is : beginning max decode rb.contents with
  | part =>
    rw [is] at turn
    dsimp only at turn
    split at turn
    · simp only [Turn.disconnect.injEq, reduceCtorEq, exists_false, or_false] at turn
      rw [turn]
    · simp at turn
  | short =>
    rw [is] at turn
    simp at turn
  | overrun n =>
    rw [is] at turn
    simp at turn
  | badHeader | refused n =>
    rw [is] at turn
    simp only [Turn.disconnect.injEq, reduceCtorEq, exists_false, or_false] at turn
    subst turn
    rfl
  | frame n =>
    rw [is] at turn
    simp only [Turn.deliver.injEq, reduceCtorEq, false_or] at turn
    obtain ⟨frame, -, rfl⟩ := turn
    rfl

theorem moveRear_mCapacity (rb : RingBuffer RecvByte) (n : Nat) : ((rb.moveRear n).getD rb).mCapacity = rb.mCapacity := by
  unfold RingBuffer.moveRear
  split <;> rfl

theorem next_mCapacity (h : next cfg s role ans pc = some (u, pc')) : u.RecvBuffer.mCapacity = s.RecvBuffer.mCapacity := by
  cases next_moves h with
  | recvDoneMove n => exact moveRear_mCapacity s.RecvBuffer n
  | recvLoopEnds ring turn => exact packetLoop_mCapacity (.inl turn)
  | recvLoop frame ring turn => exact packetLoop_mCapacity (.inr ⟨frame, turn⟩)
  | _ => rfl

theorem step_mCapacity (h : step cfg s l = some s') : s'.RecvBuffer.mCapacity = s.RecvBuffer.mCapacity := by
  cases l with
  | accept count sock address =>
    obtain ⟨-, rfl⟩ := step_accept h
    rfl
  | call call sessionID =>
    obtain rfl := Option.some.inj h
    rfl
  | recvCompletes j data =>
    obtain ⟨io, -, -, rfl⟩ := step_recvCompletes h
    rfl
  | recvFails j =>
    obtain ⟨io, -, rfl⟩ := step_recvFails h
    rfl
  | sendCompletes j =>
    obtain ⟨io, -, rfl⟩ := step_sendCompletes h
    rfl
  | sendFails j =>
    obtain ⟨io, -, rfl⟩ := step_sendFails h
    rfl
  | workRecv j =>
    obtain ⟨io, success, n, -, -, rfl⟩ := step_workRecv h
    rfl
  | workSend j =>
    obtain ⟨io, success, n, -, -, rfl⟩ := step_workSend h
    rfl
  | workRelease j =>
    obtain ⟨sessionID, -, rfl⟩ := step_workRelease h
    rfl
  | thread i ans =>
    obtain ⟨t, u, pc', -, taken, rfl⟩ := step_thread h
    show u.RecvBuffer.mCapacity = _
    exact next_mCapacity taken

theorem next_takes_frame {frame : List RecvByte} (h : next cfg s role ans pc = some (u, .onReceive frame)) :
    Accepted cfg.mMaxPayloadLength cfg.decode frame ∧ FitsPacket frame := by
  generalize is : Pc.onReceive frame = pc' at h
  cases next_moves h with
  | recvLoop taken ring turn =>
    cases is
    exact packetLoop_accepts turn
  | decDecrement again | releasePush again => cases again <;> cases is
  | _ => cases is

/-- Only good frames are taken off a ring and delivered. -/
structure Accepts (cfg : Config) (tr : List (Slot × Label)) (s : Slot) : Prop where
  taken : ∀ t ∈ s.threads, ∀ frame, t.pc = .onReceive frame → Accepted cfg.mMaxPayloadLength cfg.decode frame ∧ FitsPacket frame
  delivered : ∀ sessionID, ∀ p ∈ Session.packets (history sessionID tr), Proper cfg.mMaxPayloadLength cfg.decode p

theorem happening_packet (h : happening s l = some (sessionID, .receiveBegins p)) :
    ∃ i ans t frame, l = .thread i ans ∧ s.threads[i]? = some t ∧ t.pc = .onReceive frame ∧ p = frame.map RecvByte.byte := by
  cases l with
  | thread i ans =>
    obtain ⟨t, at_i, happens⟩ := Option.bind_eq_some_iff.mp h
    refine ⟨i, ans, t, ?_⟩
    cases pc : t.pc with
    | onReceive frame =>
      rw [pc] at happens
      cases happens
      exact ⟨frame, rfl, at_i, rfl, rfl⟩
    | wsaRecv buf len =>
      rw [pc] at happens
      cases ans <;> cases happens
    | _ =>
      rw [pc] at happens
      cases happens
  | recvCompletes j data => cases h
  | _ => cases h

theorem Run.accepts {C : Slot → Label → Prop} (run : Run (slot cfg) C tr s) : Accepts cfg tr s := by
  refine run.invariant (I := fun tr s => Accepts cfg tr s) (fun s fresh => ?_) ?_
  · refine ⟨?_, fun _ p member => by cases member⟩
    intro t member
    rw [fresh.idle.1] at member
    cases member
  · intro tr s l s' _ accepts _ h
    have h : step cfg s l = some s' := h
    refine ⟨?_, ?_⟩
    · by_cases threaded : ∃ i ans, l = .thread i ans
      · obtain ⟨i, ans, rfl⟩ := threaded
        obtain ⟨t, u, pc', at_i, taken, rfl⟩ := step_thread h
        intro x member frame is
        rcases moved_at member with rfl | ⟨j, -, old⟩
        · have is : pc' = .onReceive frame := is
          subst is
          exact next_takes_frame taken
        · exact accepts.taken x (List.mem_of_getElem? old) frame is
      · obtain ⟨-, same | ⟨t, more, starts⟩⟩ := Session.step_outside h fun i ans is => threaded ⟨i, ans, is⟩
        · rw [same]
          exact accepts.taken
        · rw [more]
          intro x member frame is
          rcases List.mem_append.mp member with old | new
          · exact accepts.taken x old frame is
          · obtain rfl := List.mem_singleton.mp new
            rw [is] at starts
            exact starts.elim
    · intro sessionID p member
      rw [history_append, packets_append] at member
      rcases List.mem_append.mp member with old | new
      · exact accepts.delivered sessionID p old
      · cases happened : happening s l with
        | none =>
          rw [happened] at new
          cases new
        | some e =>
          obtain ⟨other, e⟩ := e
          rw [happened] at new
          by_cases mine : other = sessionID
          · subst mine
            rw [ofSession_self] at new
            cases e with
            | receiveBegins packet =>
              obtain rfl : p = packet := by simpa [Session.packets] using new
              obtain ⟨i, ans, t, frame, -, at_i, pc, rfl⟩ := happening_packet happened
              obtain ⟨accepted, fits⟩ := accepts.taken t (List.mem_of_getElem? at_i) frame pc
              exact proper_of_accepted accepted fits
            | _ => cases new
          · rw [ofSession_other mine] at new
            cases new

/-! ### Runs -/

/-- An event that is not silent is the current session's. -/
theorem Opened.heard (opened : Opened cfg s) (counts : Counts cfg s) (h : step cfg s l = some s') (small : n < 2 ^ 32)
    (heard : ¬ Silent (ofSession (newSessionID cfg n) (happening s l))) :
    n = s.accepted ∧ s.accepted ∈ s.issued ∧
      ofSession (newSessionID cfg n) (happening s l) = (happening s l).map Prod.snd := by
  have current (e : Happening) (happened : happening s l = some (newSessionID cfg s.accepted, e)) :
      n = s.accepted ∧ ofSession (newSessionID cfg n) (happening s l) = (happening s l).map Prod.snd := by
    rw [happened] at heard ⊢
    by_cases mine : newSessionID cfg s.accepted = newSessionID cfg n
    · rw [mine, ofSession_self]
      exact ⟨((newSessionID_eq_iff opened.range small).mp mine).symm, rfl⟩
    · rw [ofSession_other mine] at heard
      exact absurd silent_none heard
  by_cases threaded : ∃ i ans, l = .thread i ans
  · obtain ⟨i, ans, rfl⟩ := threaded
    obtain ⟨t, u, pc', at_i, taken, -⟩ := step_thread h
    have happens : happening s (.thread i ans) = t.pc.happening s ans := by simp [happening, at_i]
    have loud : ¬ (receiving t.pc = 0 ∨ initialising t.pc = 1) := fun quiet =>
      heard (silent_ofSession (by rw [happens]; exact silent_happening ans quiet) _)
    have most := receiving_le_one t.pc
    have le := initialising_le_receiving t.pc
    have receives : receiving t.pc = 1 := by omega
    have uninit : initialising t.pc = 0 := by omega
    obtain ⟨id, announced, -⟩ := opened.receives counts at_i receives (settled_of_receiving receives uninit) uninit
    cases happened : t.pc.happening s ans with
    | none =>
      rw [happens, happened] at heard
      exact absurd silent_none heard
    | some e =>
      have mine : e.1 = newSessionID cfg s.accepted := by
        rcases next_handles taken happened with here | ⟨released, here⟩ | ⟨is, -⟩
        · rw [here] at uninit
          cases uninit
        · rw [here] at receives
          cases receives
        · rw [is, id]
      obtain ⟨same, own⟩ := current e.2 (by rw [happens, happened, ← mine])
      exact ⟨same, announced, own⟩
  · cases l with
    | recvCompletes j data =>
      obtain ⟨io, at_j, -, -⟩ := step_recvCompletes h
      obtain ⟨id, announced, -⟩ := opened.pending_receive counts at_j
      obtain ⟨same, own⟩ := current (.received data) (by rw [← id]; rfl)
      exact ⟨same, announced, own⟩
    | thread i ans => exact absurd ⟨i, ans, rfl⟩ threaded
    | _ => exact absurd silent_none heard

theorem Opened.quiet (opened : Opened cfg s) (counts : Counts cfg s) (h : step cfg s l = some s')
    (silent : Silent (ofSession (newSessionID cfg s.accepted) (happening s l))) : Silent ((happening s l).map Prod.snd) := by
  cases happened : happening s l with
  | none => exact silent_none
  | some e =>
    obtain ⟨m, small, is⟩ := opened.happening_id counts h happened
    by_contra loud
    have own : ofSession (newSessionID cfg m) (happening s l) = some e.2 := by rw [happened, ← is, ofSession_self]
    obtain ⟨rfl, -⟩ := opened.heard counts h small (by rw [own]; exact loud)
    rw [own] at silent
    exact loud silent

/-- A step keeps the bytes that wait for the announced session. -/
theorem step_retains (opened : Opened cfg s) (inc : Incoming s) (inc' : Incoming s') (announced : s.accepted ∈ s.issued)
    (room : Roomy s l) (stays : ∀ t ∈ s.threads, t.pc = .recvLoop →
      (packetLoop cfg.mMaxPayloadLength cfg.decode s.RecvBuffer).goesOn = true) (h : step cfg s l = some s') :
    Keeps (waiting s) (waiting s') ((happening s l).map Prod.snd) := by
  by_cases threaded : ∃ i ans, l = .thread i ans
  · obtain ⟨i, ans, rfl⟩ := threaded
    obtain ⟨t, u, pc', at_i, taken, rfl⟩ := step_thread h
    have member := List.mem_of_getElem? at_i
    have happens : happening s (.thread i ans) = t.pc.happening s ans := by simp [happening, at_i]
    rw [happens]
    by_cases aside : receiving t.pc = 0
    · exact keeps_same (waiting_aside at_i taken aside) (silent_happening ans (.inl aside))
    · have receives : receiving t.pc = 1 := by
        have := receiving_le_one t.pc
        omega
      have uninit : initialising t.pc = 0 := by
        have own := le_weigh (w := initialising) member
        by_contra inits
        exact opened.unissued (by omega) announced
      have cleared := uncleared_le t.pc
      have idle := (opened.alone at_i receives initialising_le_receiving).2
      rw [opened.waiting_self at_i receives, opened.waiting_eq at_i receives]
      refine next_retains taken receives (by omega) idle (inc.threads t member) (fun n here => ?_) fun here => ?_
      · simpa [Roomy, at_i, here] using room
      · exact stays t member here
  · exact waiting_outside inc inc' h fun i ans is => threaded ⟨i, ans, is⟩

/-- What came in for a session: what was delivered, and what its receiver has. -/
def Whole (es : List Happening) (rest : List UInt8) : Prop := received es = (Session.packets es).flatten ++ rest

theorem Whole.keeps {es : List Happening} {before after : List RecvByte} {e : Option Happening}
    (whole : Whole es (before.map RecvByte.byte)) (keeps : Keeps before after e) :
    Whole (es ++ e.toList) (after.map RecvByte.byte) := by
  unfold Whole at whole ⊢
  rw [received_append, packets_append, whole]
  rcases e with _ | ⟨_ | _ | bytes | packet | _ | _⟩
  case none | some.acceptBegins | some.acceptReturns | some.receiveReturns | some.releaseBegins =>
    have same : after = before := keeps
    rw [same]
    simp [received, Session.packets]
  case some.received =>
    have after : after.map RecvByte.byte = before.map RecvByte.byte ++ bytes := keeps
    rw [after]
    simp [received, Session.packets]
  case some.receiveBegins =>
    have before : before.map RecvByte.byte = packet ++ after.map RecvByte.byte := keeps
    rw [before]
    simp [received, Session.packets]

theorem step_numbers (h : step cfg s l = some s') (numbered : Numbered s l) : s'.accepted = s.accepted ∨ s.accepted < s'.accepted := by
  by_cases threaded : ∃ i ans, l = .thread i ans
  · obtain ⟨i, ans, rfl⟩ := threaded
    obtain ⟨t, u, pc', -, taken, rfl⟩ := step_thread h
    exact .inl (next_accepted taken).1
  · by_cases accepting : ∃ count sock address, l = .accept count sock address
    · obtain ⟨count, sock, address, rfl⟩ := accepting
      rw [(step_accept h).2]
      exact .inr numbered.1
    · exact .inl (step_elsewhere h (fun i ans is => threaded ⟨i, ans, is⟩)
        fun count sock address is => accepting ⟨count, sock, address, is⟩).1.1

/-- The session with this number has lost nothing. -/
structure Lossless (cfg : Config) (n : Nat) (tr : List (Slot × Label)) (s : Slot) : Prop where
  whole : ∃ rest, Whole (history (newSessionID cfg n) tr) rest
  current : n = s.accepted → n ∈ s.issued → Whole (history (newSessionID cfg n) tr) ((waiting s).map RecvByte.byte)

theorem Lossless.step (lossless : Lossless cfg n tr s) (opened : Opened cfg s) (counts : Counts cfg s) (inc : Incoming s)
    (inc' : Incoming s') (streaming' : Streaming cfg (tr ++ [(s, l)]) s') (small : n < 2 ^ 32) (room : Roomy s l) (numbered : Numbered s l)
    (unborn : n ∉ s.issued → history (newSessionID cfg n) tr = [])
    (stays : n = s.accepted → n ∈ s.issued → ∀ t ∈ s.threads, t.pc = .recvLoop →
      (packetLoop cfg.mMaxPayloadLength cfg.decode s.RecvBuffer).goesOn = true)
    (h : step cfg s l = some s') : Lossless cfg n (tr ++ [(s, l)]) s' := by
  by_cases now : n = s.accepted ∧ n ∈ s.issued
  · obtain ⟨rfl, announced⟩ := now
    have keeps := step_retains opened inc inc' announced room (stays rfl announced) h
    have whole := lossless.current rfl announced
    have here : Whole (history (newSessionID cfg s.accepted) (tr ++ [(s, l)])) ((waiting s').map RecvByte.byte) := by
      rw [history_append]
      by_cases silent : Silent (ofSession (newSessionID cfg s.accepted) (happening s l))
      · -- nothing is said to this session, and nothing is lost
        obtain ⟨same, same'⟩ := silent_append silent (history (newSessionID cfg s.accepted) tr)
        have quiet := opened.quiet counts h silent
        have still := keeps_silent keeps quiet
        unfold Whole
        rw [same, same', still]
        exact whole
      · rw [(opened.heard counts h small silent).2.2]
        exact whole.keeps keeps
    exact ⟨⟨_, here⟩, fun _ _ => here⟩
  · have silent : Silent (ofSession (newSessionID cfg n) (happening s l)) := by
      by_contra loud
      obtain ⟨rfl, announced, -⟩ := opened.heard counts h small loud
      exact now ⟨rfl, announced⟩
    obtain ⟨same, same'⟩ := silent_append silent (history (newSessionID cfg n) tr)
    refine ⟨?_, fun newest announced => ?_⟩
    · obtain ⟨rest, whole⟩ := lossless.whole
      refine ⟨rest, ?_⟩
      rw [history_append]
      unfold Whole
      rw [same, same']
      exact whole
    · -- the step announces the session, or starts to accept it
      have fresh : n ∉ s.issued := by
        intro before
        apply now
        refine ⟨?_, before⟩
        have past := opened.past n before
        rcases step_numbers h numbered with is | later
        · rw [newest, is]
        · omega
      have nothing : received (history (newSessionID cfg n) (tr ++ [(s, l)])) = [] := by
        rw [history_append, same', unborn fresh]
        rfl
      obtain ⟨gone, is, -⟩ := streaming'.current (newest ▸ announced)
      rw [← newest, nothing] at is
      have none := (List.append_eq_nil_iff.mp is.symm).2
      unfold Whole
      rw [nothing, none, history_append, same, unborn fresh]
      rfl

theorem received_begins (es : List Happening) (e : Option Happening) : received es <+: received (es ++ e.toList) := by
  rw [received_append]
  exact List.prefix_append _ _

/-- A worker in its loop has all that waits in the ring, and the ring begins with what of the frames was not delivered yet. -/
theorem Lossless.stays (lossless : Lossless cfg n tr s) (opened : Opened cfg s) (accepts : Accepts cfg tr s)
    (good : ∀ f ∈ frames, Proper cfg.mMaxPayloadLength cfg.decode f ∧ (f.length : Int) < s.RecvBuffer.mCapacity)
    (came : received (history (newSessionID cfg n) tr) <+: frames.flatten) (newest : n = s.accepted) (announced : n ∈ s.issued)
    (member : t ∈ s.threads) (here : t.pc = .recvLoop) :
    (packetLoop cfg.mMaxPayloadLength cfg.decode s.RecvBuffer).goesOn = true := by
  obtain ⟨i, at_i⟩ := List.mem_iff_getElem?.mp member
  have receives : receiving t.pc = 1 := by rw [here]; rfl
  have idle := (opened.alone at_i receives initialising_le_receiving).2
  have still : waiting s = s.RecvBuffer.contents := by
    rw [opened.waiting_self at_i receives, here]
    simp [holding, Pc.dequeued, Pc.arrived, idle]
  have whole := lossless.current newest announced
  unfold Whole at whole
  rw [whole, still] at came
  have begins := (proper_begins (accepts.delivered _) (fun f member => (good f member).1) came).2
  exact packetLoop_stays (fun f member => good f (List.mem_of_mem_drop member)) begins

/-- A session that gets good frames, for which the ring has room, loses nothing of what comes in. -/
theorem Run.lossless (run : Run (slot cfg) (fun s l => (Bounded cfg s l ∧ Numbered s l) ∧ Roomy s l) tr s) (small : n < 2 ^ 32)
    (good : ∀ f ∈ frames, Proper cfg.mMaxPayloadLength cfg.decode f ∧ (f.length : Int) < s.RecvBuffer.mCapacity)
    (came : received (history (newSessionID cfg n) tr) <+: frames.flatten) : Lossless cfg n tr s := by
  revert good came
  refine run.invariant (I := fun tr s => (∀ f ∈ frames, Proper cfg.mMaxPayloadLength cfg.decode f ∧ (f.length : Int) < s.RecvBuffer.mCapacity) →
    received (history (newSessionID cfg n) tr) <+: frames.flatten → Lossless cfg n tr s) (fun s fresh _ _ => ?_) ?_
  · refine ⟨⟨[], rfl⟩, fun _ issued => ?_⟩
    rw [fresh.unused.2.2] at issued
    cases issued
  · intro tr s l s' before lossless ⟨both, room⟩ h good came
    have plain : Run (slot cfg) (fun s l => Bounded cfg s l ∧ Numbered s l) tr s := before.mono fun _ _ c => c.1
    have after := plain.step both h
    have h : step cfg s l = some s' := h
    obtain ⟨counts, opened⟩ := Run.opened plain
    rw [step_mCapacity h] at good
    rw [history_append] at came
    have came := (received_begins _ _).trans came
    have lossless := lossless good came
    refine lossless.step opened counts (Run.incoming plain) (Run.incoming after) (Run.streaming after) small room both.2
      (fun fresh => ?_) (fun newest announced t member here => ?_) h
    · have unborn := Run.follows plain small
      rw [show phase cfg s n = .unborn from if_pos fresh] at unborn
      exact unborn_of_follows unborn
    · exact lossless.stays opened (Run.accepts plain) good came newest announced member here

/-! ### Nothing is held back -/

/-- A receiver with the frames of its ring behind it. -/
def awaits : Pc → Bool
  | .recvDoneTest _ | .recvLoop | .onReceive _ | .onReceiveReturn => false
  | pc => receiving pc == 1 && uncleared pc == 0

def NoFrame (cfg : Config) (rb : RingBuffer RecvByte) : Prop :=
  ∀ k, beginning cfg.mMaxPayloadLength cfg.decode rb.contents ≠ .frame k

structure Caught (cfg : Config) (s : Slot) : Prop where
  threads : ∀ t ∈ s.threads, awaits t.pc = true → NoFrame cfg s.RecvBuffer
  posted : s.recvIo ≠ [] → NoFrame cfg s.RecvBuffer

theorem awaits_receives (waits : awaits pc = true) : receiving pc = 1 := by
  cases pc <;> first | rfl | cases waits

theorem noFrame_empty {rb : RingBuffer RecvByte} (empty : rb.contents = []) : NoFrame cfg rb := by
  intro k is
  rw [empty] at is
  cases is

theorem noFrame_same {rb ring : RingBuffer RecvByte} (none : NoFrame cfg rb) (same : ring.contents = rb.contents) : NoFrame cfg ring := by
  intro k is
  rw [same] at is
  exact none k is

theorem noFrame_of_wait {rb : RingBuffer RecvByte} (turn : packetLoop cfg.mMaxPayloadLength cfg.decode rb = .wait) : NoFrame cfg rb := by
  intro k is
  rw [packetLoop_beginning, is] at turn
  cases turn

/-- The receiver goes on to wait only when its loop has found no frame. -/
theorem next_caught (h : next cfg s role ans pc = some (u, pc')) (receives : receiving pc = 1) (none : awaits pc = true → NoFrame cfg s.RecvBuffer)
    (idle : s.recvIo = []) (reading : Reading s.RecvBuffer sock pc) :
    (awaits pc' = true ∨ u.recvIo ≠ [] → NoFrame cfg u.RecvBuffer) := by
  cases next_moves h with
  | recvLoopWaits turn => exact fun _ => noFrame_of_wait turn
  | initRecvBuffer => exact fun _ => noFrame_empty (RingBuffer.clearBuffer_contents _)
  | wsaRecv buf len answer => exact fun _ => none rfl
  | wsaRecvAtOnce buf len data answer short =>
    obtain ⟨rfl, fits⟩ := reading
    obtain ⟨kept, -⟩ := fill_arrived ⟨s.Socket, s.RecvBuffer.mRear, len, .pending false⟩ rfl fits short
    exact fun _ => noFrame_same (none rfl) kept
  | _ =>
    first
      | cases receives; done
      | exact fun _ => none rfl
      | (intro still
         rcases still with still | still
         · cases still
         · exact absurd idle still)

theorem Caught.step (caught : Caught cfg s) (opened : Opened cfg s) (inc : Incoming s) (h : step cfg s l = some s') : Caught cfg s' := by
  by_cases threaded : ∃ i ans, l = .thread i ans
  · obtain ⟨i, ans, rfl⟩ := threaded
    obtain ⟨t, u, pc', at_i, taken, rfl⟩ := step_thread h
    have member := List.mem_of_getElem? at_i
    by_cases aside : receiving t.pc = 0
    · obtain ⟨buffer, -, recvIo, aside'⟩ := next_aside taken aside
      have same : NoFrame cfg s.RecvBuffer → NoFrame cfg u.RecvBuffer := fun none => noFrame_same none (by rw [buffer])
      refine ⟨fun x at_x waits => same ?_, fun some_io => same (caught.posted ?_)⟩
      · rcases moved_at at_x with rfl | ⟨j, -, old⟩
        · have := awaits_receives waits
          simp only at this
          omega
        · exact caught.threads x (List.mem_of_getElem? old) waits
      · intro none
        apply some_io
        show u.recvIo = []
        rcases recvIo with is | is
        · rw [is, none]
        · rw [is]
          simp [cancelIo, none]
    · have receives : receiving t.pc = 1 := by
        have := receiving_le_one t.pc
        omega
      have idle := (opened.alone at_i receives initialising_le_receiving).2
      have next := next_caught taken receives (caught.threads t member) idle (inc.threads t member)
      refine ⟨fun x at_x waits => next (.inl ?_), fun some_io => next (.inr some_io)⟩
      rcases moved_at at_x with rfl | ⟨j, apart, old⟩
      · exact waits
      · -- no other receiver stands beside this one
        have two := add_le_total (w := fun t : Thread => receiving t.pc) at_i old apart
        have token := opened.token
        have other := awaits_receives waits
        unfold weigh at token
        omega
  · have outside : ∀ i ans, l ≠ .thread i ans := fun i ans is => threaded ⟨i, ans, is⟩
    have still (threads : ∀ t ∈ s'.threads, t ∈ s.threads ∨ awaits t.pc = false) (io : s'.recvIo ≠ [] → s.recvIo ≠ [])
        (same : s'.RecvBuffer.contents = s.RecvBuffer.contents) : Caught cfg s' := by
      refine ⟨fun t at_t waits => noFrame_same ?_ same, fun some_io => noFrame_same (caught.posted (io some_io)) same⟩
      rcases threads t at_t with old | new
      · exact caught.threads t old waits
      · rw [new] at waits
        cases waits
    have joined {t v : Thread} (member : v ∈ s.threads ++ [t]) (waits : awaits t.pc = false) : v ∈ s.threads ∨ awaits v.pc = false := by
      rcases List.mem_append.mp member with old | new
      · exact .inl old
      · obtain rfl := List.mem_singleton.mp new
        exact .inr waits
    cases l with
    | accept count sock address =>
      obtain ⟨-, rfl⟩ := step_accept h
      exact still (fun t member => joined member rfl) id rfl
    | call call sessionID =>
      obtain rfl := Option.some.inj h
      exact still (fun t member => joined member rfl) id rfl
    | recvCompletes j data =>
      obtain ⟨io, at_j, short, rfl⟩ := step_recvCompletes h
      obtain ⟨own, behind, fits, -⟩ := inc.posted io (List.mem_of_getElem? at_j)
      obtain ⟨kept, -⟩ := fill_arrived io behind fits short
      refine still (fun t member => .inl member) (fun _ none => ?_) kept
      rw [none] at at_j
      cases at_j
    | recvFails j =>
      obtain ⟨io, at_j, rfl⟩ := step_recvFails h
      refine still (fun t member => .inl member) (fun _ none => ?_) rfl
      rw [none] at at_j
      cases at_j
    | sendCompletes j =>
      obtain ⟨io, -, rfl⟩ := step_sendCompletes h
      exact still (fun t member => .inl member) id rfl
    | sendFails j =>
      obtain ⟨io, -, rfl⟩ := step_sendFails h
      exact still (fun t member => .inl member) id rfl
    | workRecv j =>
      obtain ⟨io, success, n, at_j, status, rfl⟩ := step_workRecv h
      have none := caught.posted fun none => by
        rw [none] at at_j
        cases at_j
      exact ⟨fun _ _ _ => none, fun _ => none⟩
    | workSend j =>
      obtain ⟨io, success, n, -, -, rfl⟩ := step_workSend h
      exact still (fun t member => joined member (by cases success <;> rfl)) id rfl
    | workRelease j =>
      obtain ⟨sessionID, -, rfl⟩ := step_workRelease h
      exact still (fun t member => joined member rfl) id rfl
    | thread i ans => exact absurd rfl (outside i ans)

theorem Run.caught (run : Run (slot cfg) (fun s l => Bounded cfg s l ∧ Numbered s l) tr s) : Caught cfg s := by
  refine run.invariant (I := fun _ s => Caught cfg s) (fun s fresh => ?_) ?_
  · refine ⟨fun t member => ?_, fun some_io => absurd fresh.idle.2.1 some_io⟩
    rw [fresh.idle.1] at member
    cases member
  · intro tr s l s' before caught _ h
    exact caught.step (Run.opened before).2 (Run.incoming before) h

/-- While a receive is pending, every frame that has come in whole has been delivered. -/
def NothingHeld (s : Slot) (es : List Happening) (frames : List (List UInt8)) : Prop :=
  ∀ io cancelled, io ∈ s.recvIo → io.status = .pending cancelled → ∀ f, Session.packets es ++ [f] <+: frames →
    ¬ (Session.packets es ++ [f]).flatten <+: received es

theorem good_frames_delivered (run : Run (slot cfg) (fun s l => (Bounded cfg s l ∧ Numbered s l) ∧ Roomy s l) tr s) (small : n < 2 ^ 32)
    (good : ∀ f ∈ frames, Proper cfg.mMaxPayloadLength cfg.decode f ∧ (f.length : Int) < s.RecvBuffer.mCapacity)
    (came : received (history (newSessionID cfg n) tr) <+: frames.flatten) :
    Session.packets (history (newSessionID cfg n) tr) <+: frames ∧
      (n = s.accepted → n ∈ s.issued → NothingHeld s (history (newSessionID cfg n) tr) frames ∧
        ∀ t ∈ s.threads, t.pc = .recvLoop → (packetLoop cfg.mMaxPayloadLength cfg.decode s.RecvBuffer).goesOn = true) := by
  have plain : Run (slot cfg) (fun s l => Bounded cfg s l ∧ Numbered s l) tr s := run.mono fun _ _ c => c.1
  have lossless := Run.lossless run small good came
  have proper := (Run.accepts plain).delivered (newSessionID cfg n)
  have sent : ∀ f ∈ frames, Proper cfg.mMaxPayloadLength cfg.decode f := fun f member => (good f member).1
  constructor
  · obtain ⟨rest, whole⟩ := lossless.whole
    unfold Whole at whole
    rw [whole] at came
    exact (proper_begins proper sent came).1
  · intro newest announced
    refine ⟨?_, fun t member here =>
      lossless.stays (Run.opened plain).2 (Run.accepts plain) good came newest announced member here⟩
    intro io cancelled member status f next arrived
    have inc := Run.incoming plain
    obtain ⟨j, at_j⟩ := List.mem_iff_getElem?.mp member
    have whole := lossless.current newest announced
    have nothing : io.arrived s.RecvBuffer = [] := by rw [RecvIo.arrived, status]
    rw [inc.waiting_eq at_j, nothing, List.append_nil] at whole
    unfold Whole at whole
    rw [whole] at came arrived
    have none := (Run.caught plain).posted fun empty => by
      rw [empty] at member
      cases member
    obtain ⟨more, rfl⟩ := next
    rw [List.append_assoc, List.flatten_append, List.prefix_append_right_inj] at came
    rw [List.flatten_append, List.prefix_append_right_inj] at arrived
    have sent' : ∀ g ∈ f :: more, Proper cfg.mMaxPayloadLength cfg.decode g := fun g there => sent g (by simp [List.mem_cons.mp there])
    rcases beginning_proper sent' came with ⟨g, -, -, is⟩ | ⟨shorter, -, -⟩
    · exact none _ is
    · have := shorter f rfl
      have := arrived.length_le
      rw [List.flatten_cons, List.flatten_nil, List.append_nil, List.length_map] at this
      omega

/-! ### Packets that a `NetClient` has sent -/

theorem wire_proper {payload : List UInt8} (fits : payload.length ≤ Serializer.defaultSize) (limit : payload.length ≤ max) (rand : UInt8) :
    Proper max (fun frame => (Serializer.decode frame).isSome) (Serializer.wire rand payload) := by
  have size := Serializer.wire_length rand payload
  have small := Serializer.ofNat_length fits
  have length : headerLength (ofBytes (Serializer.wire rand payload)) = payload.length := by
    simp only [Serializer.wire, NetworkHeader.bytes, Block.toBytes, small]
    simp [headerLength, ofBytes]
    simp only [Serializer.defaultSize] at fits
    omega
  have whole : (ofBytes (Serializer.wire rand payload)).length = headerSize + payload.length := by
    rw [ofBytes, List.length_map, size]
    rfl
  refine ⟨⟨⟨⟨by omega, by rw [length, whole]⟩, rfl, by rw [length]; exact limit⟩, ?_⟩, by unfold FitsPacket; rwa [length]⟩
  rw [ofBytes_byte, Serializer.wire_decodes fits]
  rfl

/-- A client that sends packets prepared by `prepareSend` finds each of them, once it has come in whole,
given to `OnReceive`, in the order in which it sent them, and its session is not closed for what it sent. -/
theorem sent_packets_received (run : Run (slot cfg) (fun s l => (Bounded cfg s l ∧ Numbered s l) ∧ Roomy s l) tr s) (small : n < 2 ^ 32)
    (decodes : cfg.decode = fun frame => (Serializer.decode frame).isSome) (ring : s.RecvBuffer.mCapacity = RingBuffer.defaultSize)
    {sends : List (UInt8 × List UInt8)} (fits : ∀ x ∈ sends, x.2.length ≤ Serializer.defaultSize ∧ x.2.length ≤ cfg.mMaxPayloadLength)
    (came : received (history (newSessionID cfg n) tr) <+: (sends.map fun x => Serializer.wire x.1 x.2).flatten) :
    ∃ sent later, sends = sent ++ later ∧
      (Session.packets (history (newSessionID cfg n) tr)).map Serializer.decode = sent.map (fun x => some x.2) ∧
      (n = s.accepted → n ∈ s.issued → NothingHeld s (history (newSessionID cfg n) tr) (sends.map fun x => Serializer.wire x.1 x.2) ∧
        ∀ t ∈ s.threads, t.pc = .recvLoop → (packetLoop cfg.mMaxPayloadLength cfg.decode s.RecvBuffer).goesOn = true) := by
  have good : ∀ f ∈ sends.map fun x => Serializer.wire x.1 x.2,
      Proper cfg.mMaxPayloadLength cfg.decode f ∧ (f.length : Int) < s.RecvBuffer.mCapacity := by
    intro f member
    obtain ⟨x, there, rfl⟩ := List.mem_map.mp member
    obtain ⟨room, limit⟩ := fits x there
    rw [decodes, ring, Serializer.wire_length]
    refine ⟨wire_proper room limit x.1, ?_⟩
    simp only [Serializer.defaultSize, NetworkHeader.size, RingBuffer.defaultSize] at room ⊢
    omega
  obtain ⟨begins, nothing⟩ := good_frames_delivered run small good came
  obtain ⟨sent, later, rfl, is⟩ := List.map_eq_append_iff.mp begins.choose_spec.symm
  refine ⟨sent, later, rfl, ?_, nothing⟩
  rw [← is.1, List.map_map]
  apply List.map_congr_left
  intro x member
  exact Serializer.wire_decodes (fits x (List.mem_append_left _ member)).1 x.1

def decoding : Config := ⟨0, 65535, fun frame => (Serializer.decode frame).isSome, false, false⟩

/-- A client's packet comes in, and a byte of the next; the server posts its next receive. -/
def packetAndByte : List Label := acceptRound 1 1 9 0 ++ .thread 0 .pending :: List.replicate 3 (Label.thread 0 .go) ++
  [.recvCompletes 0 (Serializer.wire 9 [5] ++ [0x77]), .workRecv 0] ++ List.replicate 9 (Label.thread 1 .go) ++ [.thread 1 .pending]

theorem packet_and_byte_received : ∃ (tr : List (Slot × Label)) (s : Slot), tr.map Prod.snd = packetAndByte ∧
    ∃ sent later, [(9, [5]), (7, [6])] = sent ++ later ∧
      (Session.packets (history 1 tr)).map Serializer.decode = sent.map (fun x : UInt8 × List UInt8 => some x.2) ∧
      NothingHeld s (history 1 tr) ([(9, [5]), (7, [6])].map fun x => Serializer.wire x.1 x.2) := by
  have along : Along (slot decoding) (fun s l => (Bounded decoding s l ∧ Numbered s l) ∧ Roomy s l) unusedSlot packetAndByte := by
    decide +kernel
  obtain ⟨s, reached, run⟩ := Run.along (.init unusedSlot_fresh) along
  have facts : (exec (slot decoding) unusedSlot packetAndByte).map (fun s => (s.accepted, s.issued, s.RecvBuffer.mCapacity)) =
      some (1, [1], RingBuffer.defaultSize) := by decide +kernel
  have came : received (history 1 (trace (slot decoding) unusedSlot packetAndByte)) <+:
      ([(9, [5]), (7, [6])].map fun x => Serializer.wire x.1 x.2).flatten := by decide +kernel
  rw [reached] at facts
  simp only [Option.map_some, Option.some.injEq, Prod.mk.injEq] at facts
  obtain ⟨newest, issued, ring⟩ := facts
  obtain ⟨sent, later, split, packets, held⟩ := sent_packets_received (n := 1) run (by decide) rfl ring
    (by decide) came
  exact ⟨_, s, trace_labels reached, sent, later, split, packets, (held newest.symm (by rw [issued]; exact .head _)).1⟩

end WanNet.Session
