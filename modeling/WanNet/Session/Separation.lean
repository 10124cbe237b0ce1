import WanNet.RingBuffer.Fifo
import WanNet.Session.Identity
import WanNet.Session.Pipeline

/-!
The data of one slot over its sessions: what a session's `WSASend` takes was enqueued under its ID,
and what it hands to `OnReceive` came from its socket.
-/

namespace WanNet.Session
open Transition Threads ReleaseCount

variable {cfg : Config} {s s' u : Slot} {role : Role} {ans : Answer} {pc pc' : Pc} {t : Thread} {i : Nat}

/-! ### Who works on the slot -/

/-- Who works on the slot works on a live session that is initialised and carries its ID. -/
theorem Identified.working (id : Identified cfg s) (counts : Counts cfg s) (member : t ∈ s.threads) (acts : 0 < acting t.pc) :
    (core s).live = 1 ∧ weigh initialising s = 0 ∧ s.ID = newSessionID cfg s.accepted := by
  have settles := Nat.lt_of_lt_of_le acts (acting_le_settled t.pc)
  have live := counts.inv.live_of_within (mem_stages member) (Nat.lt_of_lt_of_le settles (settled_le_within _))
  have own := le_weigh (w := acting) member
  have nobody : weigh initialising s = 0 := by
    have apart := id.exclusive.2
    omega
  have names := weigh_le (s := s) (v := naming) (w := initialising) fun pc => by
    cases pc <;> simp [naming, initialising, Pc.initialises]
  exact ⟨live, nobody, id.named (by omega) live⟩

theorem step_elsewhere (h : step cfg s l = some s') (outside : ∀ i ans, l ≠ .thread i ans)
    (noaccept : ∀ count sock address, l ≠ .accept count sock address) :
    (s'.accepted = s.accepted ∧ s'.acceptedSocket = s.acceptedSocket ∧ s'.unusedKeys = s.unusedKeys) ∧
      (s'.threads = s.threads ∨ ∃ t, s'.threads = s.threads ++ [t] ∧ t.pc.Start ∧ t.pc.initialises = false) := by
  cases l with
  | accept count sock address => exact absurd rfl (noaccept count sock address)
  | call call sessionID =>
    obtain rfl := Option.some.inj h
    exact ⟨⟨rfl, rfl, rfl⟩, .inr ⟨_, rfl, trivial, rfl⟩⟩
  | recvCompletes j data =>
    obtain ⟨io, -, -, rfl⟩ := step_recvCompletes h
    exact ⟨⟨rfl, rfl, rfl⟩, .inl rfl⟩
  | recvFails j =>
    obtain ⟨io, -, rfl⟩ := step_recvFails h
    exact ⟨⟨rfl, rfl, rfl⟩, .inl rfl⟩
  | sendCompletes j =>
    obtain ⟨io, -, rfl⟩ := step_sendCompletes h
    exact ⟨⟨rfl, rfl, rfl⟩, .inl rfl⟩
  | sendFails j =>
    obtain ⟨io, -, rfl⟩ := step_sendFails h
    exact ⟨⟨rfl, rfl, rfl⟩, .inl rfl⟩
  | workRecv j =>
    obtain ⟨io, success, n, -, -, rfl⟩ := step_workRecv h
    exact ⟨⟨rfl, rfl, rfl⟩, .inr ⟨_, rfl, by cases success <;> trivial, by cases success <;> rfl⟩⟩
  | workSend j =>
    obtain ⟨io, success, n, -, -, rfl⟩ := step_workSend h
    exact ⟨⟨rfl, rfl, rfl⟩, .inr ⟨_, rfl, by cases success <;> trivial, by cases success <;> rfl⟩⟩
  | workRelease j =>
    obtain ⟨sessionID, -, rfl⟩ := step_workRelease h
    exact ⟨⟨rfl, rfl, rfl⟩, .inr ⟨_, rfl, trivial, rfl⟩⟩
  | thread i ans => exact absurd rfl (outside i ans)

/-! ### Packets -/

/-- The accept thread before `Init` has emptied `SendQueue`. -/
def washing : Pc → Nat
  | .acceptIncrement | .initClearFlag
  | .initID | .initSocket | .initAddress | .initSendFlag | .initKey | .initDisconnected
  | .initRegistered | .initRecvBuffer | .initDrain => 1
  | _ => 0

theorem washing_le (pc : Pc) : washing pc ≤ initialising pc := by
  cases pc <;> simp [washing, initialising, Pc.initialises]

theorem counting_le (pc : Pc) : counting pc ≤ acting pc := by
  cases pc <;> simp [counting, acting, Pc.initialises, stage]

theorem idle_of_start (start : pc.Start) : batchOf pc = [] ∧ counting pc = 0 := by
  cases pc <;> simp_all [Pc.Start, batchOf, counting]

theorem acting_of_batch (batch : batchOf pc ≠ [] ∨ carrying pc = 1) : 0 < acting pc := by
  cases pc <;> simp [batchOf, carrying, acting, Pc.initialises, stage] at *

theorem next_queue (h : next cfg s role ans pc = some (s', pc')) :
    ∀ q ∈ s'.SendQueue, q ∈ s.SendQueue ∨ pc = .callEnqueue ∧ ∃ call, role = .api call q.sender := by
  intro q hq
  cases next_moves h with
  | callEnqueueShows packet sessionID sends | callEnqueue packet sessionID sends =>
    rcases List.mem_append.mp hq with old | new
    · exact .inl old
    · obtain rfl := List.mem_singleton.mp new
      exact .inr ⟨rfl, sends.elim (fun api => ⟨_, api⟩) fun api => ⟨_, api⟩⟩
  | initDrain first rest left queue | sendDequeue _ _ first rest more left queue =>
    rw [queue]
    exact .inl (.tail _ hq)
  | _ => exact .inl hq

theorem next_batch (h : next cfg s role ans pc = some (s', pc')) :
    ∀ q ∈ batchOf pc', q ∈ batchOf pc ∨ carrying pc = 1 ∧ q ∈ s.SendQueue := by
  intro q hq
  cases next_moves h with
  | sendDequeueWaits | sendIncrement => exact .inl hq
  | sendDequeue n wsabuf packet rest more left queue =>
    rcases List.mem_append.mp hq with old | new
    · exact .inl old
    · obtain rfl := List.mem_singleton.mp new
      exact .inr ⟨rfl, by rw [queue]; exact .head _⟩
  | decDecrement again | releasePush again => cases again <;> cases hq
  | _ => cases hq

theorem next_washing (h : next cfg s role ans pc = some (s', pc')) :
    washing pc' ≤ washing pc ∧ (stage pc = .reviving true → washing pc' = 1) ∧
      (washing pc = 1 → washing pc' = 1 ∨ cfg.getCount s.SendQueueCount = 0 ∧ s'.SendQueue = s.SendQueue) := by
  cases next_moves h with
  | initClearFlag => exact ⟨Nat.le_refl _, fun _ => rfl, fun _ => .inl rfl⟩
  | acceptIncrement | initID | initSocket | initAddress | initSendFlag | initKey | initDisconnected | initRegistered | initRecvBuffer
  | initDrainWaits | initDrain => exact ⟨Nat.le_refl _, (fun revives => by cases revives), fun _ => .inl rfl⟩
  | initDrained zero => exact ⟨Nat.zero_le _, (fun revives => by cases revives), fun _ => .inr ⟨zero, rfl⟩⟩
  | decDecrement again | releasePush again =>
    cases again <;> exact ⟨Nat.le_refl _, (fun revives => by cases revives), fun washes => by cases washes⟩
  | _ => exact ⟨Nat.le_refl _, (fun revives => by cases revives), fun washes => by cases washes⟩

/-- Every element of `SendQueue` is counted, but for those of threads inside `Enqueue`. -/
def Linked (s : Slot) : Prop := s.SendQueue.length = s.SendQueueCount + weigh counting s

theorem Linked.step (linked : Linked s) (h : step cfg s l = some s') : Linked s' := by
  unfold Linked at *
  by_cases threaded : ∃ i ans, l = .thread i ans
  · obtain ⟨i, ans, rfl⟩ := threaded
    obtain ⟨t, u, pc', at_i, taken, rfl⟩ := step_thread h
    have changed := weigh_moved counting u pc' at_i
    have own := le_weigh (w := counting) (List.mem_of_getElem? at_i)
    have moves := next_linked taken
    show u.SendQueue.length = u.SendQueueCount + _
    omega
  · have outside (i ans) : l ≠ .thread i ans := fun is => threaded ⟨i, ans, is⟩
    obtain ⟨same, threads⟩ := step_outside h outside
    rw [same.queue.1, same.queue.2]
    rcases threads with still | ⟨t, more, start⟩
    · unfold weigh at *
      rwa [still]
    · rw [weigh_join more]
      simp [total, (idle_of_start start).2, linked]

/-- Past `Init`, what waits in `SendQueue` or is on its way to `WSASend` was enqueued under the ID of
the present session. -/
structure Outgoing (cfg : Config) (s : Slot) : Prop where
  queue : (core s).live = 1 → weigh washing s = 0 → ∀ q ∈ s.SendQueue, q.sender = newSessionID cfg s.accepted
  batches : ∀ t ∈ s.threads, ∀ q ∈ batchOf t.pc, q.sender = newSessionID cfg s.accepted

theorem Outgoing.init (fresh : s.Fresh) : Outgoing cfg s := by
  refine ⟨fun live => ?_, by simp [fresh.idle.1]⟩
  have used : 0 < s.inits := (Core.live_eq_one.mp live).2
  have := fresh.unused.1
  omega

theorem Outgoing.step_move (out : Outgoing cfg s) (linked : Linked s) (countable : Countable cfg s) (counts : Counts cfg s)
    (id : Identified cfg s) (few : Few cfg s (.thread i ans)) (h : step cfg s (.thread i ans) = some s') : Outgoing cfg s' := by
  have few := few s' h
  obtain ⟨t, u, pc', at_i, taken, rfl⟩ := step_thread h
  have member := List.mem_of_getElem? at_i
  have running : t.pc ≠ .finished := fun done => by rw [done] at taken; cases taken
  obtain ⟨accepted, -, -⟩ := next_accepted taken
  have wash_changed := weigh_moved washing u pc' at_i
  have wash_own := le_weigh (w := washing) member
  obtain ⟨fewer, revived_washes, drained⟩ := next_washing taken
  have working (acts : 0 < acting t.pc) : (core s).live = 1 ∧ weigh washing s = 0 ∧ s.ID = newSessionID cfg s.accepted := by
    obtain ⟨live, nobody, named⟩ := id.working counts member acts
    have := weigh_le (s := s) washing_le
    exact ⟨live, by omega, named⟩
  refine ⟨?_, ?_⟩
  · intro live washed q hq
    show q.sender = newSessionID cfg u.accepted
    rw [accepted]
    have alive : (core s).live = 1 := by
      rw [← refs_core, stages_moved] at few
      rcases (counts.inv.move_live (stages_at at_i) (counts.move member taken) few).2 with same | ⟨revived, -⟩ | ⟨-, -, -, dead⟩
      · exact same.symm.trans live
      · have := revived_washes revived
        omega
      · exact absurd (live.symm.trans dead) (by decide)
    by_cases unwashed : weigh washing s = 0
    · rcases next_queue taken q hq with old | ⟨here, call, role⟩
      · exact out.queue alive unwashed q old
      · have acts : 0 < acting t.pc := by rw [here]; exact Nat.one_pos
        have same := id.admitted t member q.sender (caller_of_role role running) acts
        exact same.symm.trans (working acts).2.2
    · -- the drain ends with the queue empty
      have one : washing t.pc = 1 := by
        have := washing_le t.pc
        have : initialising t.pc ≤ 1 := by
          unfold initialising
          cases t.pc.initialises <;> simp
        omega
      rcases drained one with still | ⟨none, same⟩
      · omega
      · have washers := weigh_le (s := s) washing_le
        have counters := weigh_le (s := s) counting_le
        have apart := id.exclusive.2
        rw [getCount_eq countable] at none
        have empty : s.SendQueue = [] := by
          unfold Linked at linked
          exact List.length_eq_zero_iff.mp (by omega)
        have hq : q ∈ u.SendQueue := hq
        rw [same, empty] at hq
        cases hq
  · intro x hx q hq
    show q.sender = newSessionID cfg u.accepted
    rw [accepted]
    rcases mem_moved hx with old | rfl
    · exact out.batches x old q hq
    · rcases next_batch taken q hq with batch | ⟨carries, queued⟩
      · exact out.batches t member q batch
      · obtain ⟨live, washed, -⟩ := working (acting_of_batch (.inr carries))
        exact out.queue live washed q queued

theorem Outgoing.step_outside (out : Outgoing cfg s) (counts : Counts cfg s) (h : step cfg s l = some s')
    (outside : ∀ i ans, l ≠ .thread i ans) : Outgoing cfg s' := by
  have same := (Session.step_outside h outside).1
  by_cases accepting : ∃ count sock address, l = .accept count sock address
  · obtain ⟨count, sock, address, rfl⟩ := accepting
    obtain ⟨key, rfl⟩ := step_accept h
    obtain ⟨dead, -, no_act, -⟩ := counts.vacant key
    refine ⟨fun live => ?_, ?_⟩
    · have live : (core s).live = 1 := live
      omega
    · intro t ht q hq
      rcases List.mem_append.mp ht with old | new
      · have acts := acting_of_batch (.inl (List.ne_nil_of_mem hq))
        have := le_weigh (w := acting) old
        omega
      · obtain rfl := List.mem_singleton.mp new
        cases hq
  · obtain ⟨⟨accepted, -, -⟩, threads⟩ := step_elsewhere h outside fun count sock address is => accepting ⟨count, sock, address, is⟩
    have queue := same.queue.1
    have live : (core s').live = (core s).live := live_eq same.count same.inits
    rcases threads with still | ⟨t, more, start, uninit⟩
    · have weights (w : Pc → Nat) : weigh w s' = weigh w s := by
        unfold weigh
        rw [still]
      refine ⟨?_, ?_⟩
      · rw [live, weights, queue, accepted]
        exact out.queue
      · rw [still, accepted]
        exact out.batches
    · have nobatch := (idle_of_start start).1
      have unwashed : washing t.pc = 0 := by
        have := washing_le t.pc
        simp only [initialising, uninit, Bool.toNat_false] at this
        omega
      refine ⟨?_, ?_⟩
      · rw [live, weigh_join more, queue, accepted]
        simpa [total, unwashed] using out.queue
      · intro x hx
        rw [more] at hx
        rw [accepted]
        rcases List.mem_append.mp hx with old | new
        · exact out.batches x old
        · obtain rfl := List.mem_singleton.mp new
          simp [nobatch]

/-! ### Bytes -/

/-- Whoever holds the right to receive: the accept thread up to its first `WSARecv`, then the pending
operation and the worker that handles its completion, in turn. -/
def receiving : Pc → Nat
  | .onAcceptReturn | .recvTestDisconnected | .recvTestRegistered | .recvIncrement | .wsaRecv _ _
  | .recvDoneMove _ | .recvDoneTest _ | .recvLoop | .onReceive _ | .onReceiveReturn => 1
  | pc => initialising pc

/-- The accept thread before it has cleared `RecvBuffer`. -/
def uncleared : Pc → Nat
  | .acceptIncrement | .initClearFlag
  | .initID | .initSocket | .initAddress | .initSendFlag | .initKey | .initDisconnected
  | .initRegistered | .initRecvBuffer => 1
  | _ => 0

/-- The first `n` cells behind `mRear` were written for this socket. -/
def Arrived (rb : RingBuffer RecvByte) (sock n : Nat) : Prop :=
  (n : Int) ≤ rb.getDirectEnqueueSize ∧ ∀ b ∈ cells rb.mBuffer rb.mRear n, b.origin = sock

/-- The operation writes for this socket, behind `mRear`. -/
def Posted (rb : RingBuffer RecvByte) (sock : Nat) (io : RecvIo) : Prop :=
  io.socket = sock ∧ io.buf = rb.mRear ∧ (io.len : Int) ≤ rb.getDirectEnqueueSize ∧
    ∀ n, io.status = .done true n → Arrived rb sock n

/-- What a thread knows about the bytes it is about to take. -/
def Reading (rb : RingBuffer RecvByte) (sock : Nat) : Pc → Prop
  | .wsaRecv buf len => buf = rb.mRear ∧ (len : Int) ≤ rb.getDirectEnqueueSize
  | .recvDoneMove n => Arrived rb sock n
  | .onReceive frame => ∀ b ∈ frame, b.origin = sock
  | _ => True

theorem packetLoop_takes {rb rest : RingBuffer RecvByte} (h : packetLoop m decode rb = .deliver frame rest) :
    rb.contents = frame ++ rest.contents := by
  unfold packetLoop at h
  repeat' split at h
  all_goals first
    | cases h; done
    | cases h
      obtain ⟨rfl, rest⟩ := RingBuffer.dequeue_contents ‹_›
      rw [rest, List.take_append_drop]

theorem packetLoop_drops {rb rest : RingBuffer RecvByte} (h : packetLoop m decode rb = .disconnect rest) :
    ∃ dropped, rb.contents = dropped ++ rest.contents := by
  unfold packetLoop at h
  repeat' split at h
  all_goals first
    | cases h; done
    | cases h; exact ⟨[], rfl⟩
    | cases h
      obtain ⟨-, rest⟩ := RingBuffer.dequeue_contents ‹_›
      exact ⟨_, by rw [rest, List.take_append_drop]⟩

theorem packetLoop_deliver {rb rest : RingBuffer RecvByte} (h : packetLoop m decode rb = .deliver frame rest) :
    (∀ b ∈ frame, b ∈ rb.contents) ∧ ∀ b ∈ rest.contents, b ∈ rb.contents := by
  rw [packetLoop_takes h]
  exact ⟨fun b => List.mem_append_left _, fun b => List.mem_append_right _⟩

theorem packetLoop_disconnect {rb rest : RingBuffer RecvByte} (h : packetLoop m decode rb = .disconnect rest) :
    ∀ b ∈ rest.contents, b ∈ rb.contents := by
  obtain ⟨dropped, taken⟩ := packetLoop_drops h
  rw [taken]
  exact fun b => List.mem_append_right _

theorem receiving_le_one (pc : Pc) : receiving pc ≤ 1 := by
  cases pc <;> simp [receiving, initialising, Pc.initialises]

theorem initialising_le_receiving (pc : Pc) : initialising pc ≤ receiving pc := by
  cases pc <;> simp [receiving, initialising, Pc.initialises]

theorem unsocketed_le (pc : Pc) : unsocketed pc ≤ uncleared pc := by
  cases pc <;> simp [unsocketed, uncleared]

theorem uncleared_le (pc : Pc) : uncleared pc ≤ initialising pc := by
  cases pc <;> simp [uncleared, initialising, Pc.initialises]

/-- Threads that do not receive leave the receive side alone, but for `CancelIoEx`. -/
theorem next_aside (h : next cfg s role ans pc = some (s', pc')) (aside : receiving pc = 0) :
    s'.RecvBuffer = s.RecvBuffer ∧ s'.Socket = s.Socket ∧
      (s'.recvIo = s.recvIo ∨ s'.recvIo = (cancelIo s).recvIo) ∧ receiving pc' = 0 := by
  cases next_moves h with
  | callCancel | recvCancel | sendCancel => exact ⟨rfl, rfl, .inr rfl, rfl⟩
  | decDecrement again | releasePush again => cases again <;> exact ⟨rfl, rfl, .inl rfl, rfl⟩
  | _ =>
    first
      | exact ⟨rfl, rfl, .inl rfl, rfl⟩
      | cases aside

theorem fill_posted (io : RecvIo) {data : List UInt8} (behind : io.buf = s.RecvBuffer.mRear)
    (fits : (io.len : Int) ≤ s.RecvBuffer.getDirectEnqueueSize) (short : data.length ≤ io.len) :
    (fill s io data).RecvBuffer.contents = s.RecvBuffer.contents ∧
      Arrived (fill s io data).RecvBuffer io.socket data.length := by
  have stored : (fill s io data).RecvBuffer =
      s.RecvBuffer.store s.RecvBuffer.mRear (data.map fun byte => ⟨byte, io.socket⟩) := by
    rw [← behind]
    rfl
  have length : ((data.map fun byte : UInt8 => (⟨byte, io.socket⟩ : RecvByte)).length : Int) ≤
      s.RecvBuffer.getDirectEnqueueSize := by
    rw [List.length_map]
    omega
  rw [stored]
  refine ⟨s.RecvBuffer.store_contents length, by rw [List.length_map] at length; exact length, ?_⟩
  have bytes := s.RecvBuffer.cells_store s.RecvBuffer.mRear (data.map fun byte => ⟨byte, io.socket⟩)
  rw [List.length_map] at bytes
  show ∀ b ∈ cells (s.RecvBuffer.store _ _).mBuffer s.RecvBuffer.mRear _, _
  rw [bytes]
  intro b hb
  obtain ⟨byte, -, rfl⟩ := List.mem_map.mp hb
  rfl

/-- The receive side of a slot, when one of its threads is the receiver. -/
structure Receives (s : Slot) (sock : Nat) (pc : Pc) : Prop where
  token : receiving pc + s.recvIo.length ≤ 1
  socket : unsocketed pc = 0 → s.Socket = sock
  contents : uncleared pc = 0 → ∀ b ∈ s.RecvBuffer.contents, b.origin = sock
  posted : ∀ io ∈ s.recvIo, Posted s.RecvBuffer sock io
  reading : Reading s.RecvBuffer sock pc

theorem next_receives (h : next cfg s role ans pc = some (s', pc')) (receives : receiving pc = 1)
    (round : pc.initialises = true → ∃ count address, role = .accept count sock address)
    (reads : Receives s sock pc) : Receives s' sock pc' := by
  obtain ⟨token, socket, contents, posted, reading⟩ := reads
  have none : s.recvIo = [] := List.length_eq_zero_iff.mp (by omega)
  have alone (p : Pc) : receiving p + s.recvIo.length ≤ 1 := by
    rw [none]
    exact receiving_le_one p
  have unposted (rb : RingBuffer RecvByte) : ∀ io ∈ s.recvIo, Posted rb sock io := by
    rw [none]
    exact List.forall_mem_nil _
  cases next_moves h with
  | initSocket count sock' address accept =>
    obtain ⟨count', address', round⟩ := round rfl
    obtain rfl : sock' = sock := by
      cases accept.symm.trans round
      rfl
    exact ⟨alone _, fun _ => rfl, (fun cleared => by cases cleared), unposted _, trivial⟩
  | initRecvBuffer => exact ⟨alone _, fun _ => socket rfl, by simp, unposted _, trivial⟩
  | recvIncrement =>
    have size := s.RecvBuffer.getDirectEnqueueSize_pos
    exact ⟨alone _, fun _ => socket rfl, fun _ => contents rfl, unposted _, rfl, by simp only; omega⟩
  | wsaRecv buf len =>
    obtain ⟨rfl, fits⟩ := reading
    refine ⟨by simp [none, receiving, initialising, Pc.initialises], fun _ => socket rfl, fun _ => contents rfl, fun io member => ?_, trivial⟩
    obtain rfl : io = _ := by simpa [none] using member
    exact ⟨socket rfl, rfl, fits, by simp⟩
  | wsaRecvAtOnce buf len data answer short =>
    obtain ⟨rfl, fits⟩ := reading
    obtain ⟨kept, arrived⟩ := fill_posted ⟨s.Socket, s.RecvBuffer.mRear, len, .pending false⟩ rfl fits short
    refine ⟨by simp [none, receiving, initialising, Pc.initialises], fun _ => socket rfl, fun _ => ?_, fun io member => ?_, trivial⟩
    · show ∀ b ∈ (fill _ _ _).RecvBuffer.contents, _
      rw [kept]
      exact contents rfl
    · obtain rfl : io = _ := by simpa [none] using member
      refine ⟨socket rfl, rfl, fits, fun n is => ?_⟩
      cases is
      rw [← socket rfl]
      exact arrived
  | recvDoneMove n =>
    refine ⟨alone _, fun _ => socket rfl, fun _ b hb => ?_, unposted _, trivial⟩
    obtain ⟨fits, arrived⟩ := reading
    rcases s.RecvBuffer.moveRear_contents fits with appended | emptied
    · rw [appended] at hb
      exact (List.mem_append.mp hb).elim (contents rfl b) (arrived b)
    · rw [emptied] at hb
      cases hb
  | recvLoopEnds rest turn =>
    exact ⟨alone _, fun _ => socket rfl, fun _ b hb => contents rfl b (packetLoop_disconnect turn b hb), unposted _, trivial⟩
  | recvLoop frame rest turn =>
    obtain ⟨delivered, kept⟩ := packetLoop_deliver turn
    exact ⟨alone _, fun _ => socket rfl, fun _ b hb => contents rfl b (kept b hb), unposted _, fun b hb => contents rfl b (delivered b hb)⟩
  | acceptIncrement | initClearFlag | initID =>
    exact ⟨alone _, (fun socketed => by cases socketed), (fun cleared => by cases cleared), unposted _, trivial⟩
  | initAddress | initSendFlag | initKey | initDisconnected | initRegistered =>
    exact ⟨alone _, fun _ => socket rfl, (fun cleared => by cases cleared), unposted _, trivial⟩
  | _ =>
    first
      | exact ⟨alone _, fun _ => socket rfl, fun _ => contents rfl, unposted _, trivial⟩
      | cases receives

/-- Past `Init`, what lies in `RecvBuffer` or is on its way to `OnReceive` came from the socket of the
present session; one operation or thread at a time receives. -/
structure Incoming (s : Slot) : Prop where
  token : weigh receiving s + s.recvIo.length ≤ 1
  socket : (core s).live = 1 → weigh unsocketed s = 0 → s.Socket = s.acceptedSocket
  contents : (core s).live = 1 → weigh uncleared s = 0 → ∀ b ∈ s.RecvBuffer.contents, b.origin = s.acceptedSocket
  posted : ∀ io ∈ s.recvIo, Posted s.RecvBuffer s.acceptedSocket io
  threads : ∀ t ∈ s.threads, Reading s.RecvBuffer s.acceptedSocket t.pc

theorem reading_aside {rb : RingBuffer RecvByte} (aside : receiving pc = 0) : Reading rb sock pc := by
  cases pc <;> trivial

theorem receiving_le (pc : Pc) : receiving pc ≤ acting pc + initialising pc := by
  cases pc <;> simp [receiving, acting, initialising, Pc.initialises, stage]

theorem within_of_receiving (receives : receiving pc = 1) (socketed : unsocketed pc = 0) : 0 < within (stage pc) := by
  cases pc <;> simp [receiving, unsocketed, initialising, Pc.initialises, stage] at *

theorem receiving_of_revival (revived : stage pc = .reviving true) : receiving pc = 1 := by
  cases pc <;> simp [stage] at revived
  rfl

theorem Incoming.init (fresh : s.Fresh) : Incoming s := by
  obtain ⟨threads, recvIo, -⟩ := fresh.idle
  have dead : (core s).live ≠ 1 := by
    intro live
    have used : 0 < s.inits := (Core.live_eq_one.mp live).2
    have := fresh.unused.1
    omega
  exact ⟨by simp [weigh, threads, recvIo], fun live => absurd live dead, fun live => absurd live dead, by simp [recvIo],
    by simp [threads]⟩

theorem Posted.cancel {rb : RingBuffer RecvByte} {io : RecvIo} (posted : Posted rb sock io) :
    Posted rb sock { io with status := io.status.cancel } := by
  obtain ⟨own, behind, fits, arrived⟩ := posted
  refine ⟨own, behind, fits, fun n is => arrived n ?_⟩
  have is : io.status.cancel = .done true n := is
  cases status : io.status with
  | pending => rw [status] at is; cases is
  | done success m => rw [status] at is; exact is

theorem Incoming.step_aside (inc : Incoming s) (at_i : s.threads[i]? = some t)
    (taken : next cfg s t.role ans t.pc = some (u, pc')) (aside : receiving t.pc = 0)
    (alive : (core u).live = 1 → (core s).live = 1) : Incoming (s.moved u i t pc') := by
  obtain ⟨-, sock, -⟩ := next_accepted taken
  obtain ⟨buffer, socket, recvIo, aside'⟩ := next_aside taken aside
  have same {w : Pc → Nat} (le : ∀ pc, w pc ≤ receiving pc) : weigh w (s.moved u i t pc') = weigh w s := by
    have changed := weigh_moved w u pc' at_i
    have := le t.pc
    have := le pc'
    omega
  have uncleared_le (pc : Pc) := Nat.le_trans (uncleared_le pc) (initialising_le_receiving pc)
  have unsocketed_le (pc : Pc) := Nat.le_trans (unsocketed_le pc) (uncleared_le pc)
  have length : u.recvIo.length = s.recvIo.length := by
    rcases recvIo with same | cancelled
    · rw [same]
    · simp [cancelled, cancelIo]
  refine ⟨?_, ?_, ?_, ?_, ?_⟩
  · rw [same fun _ => Nat.le_refl _]
    show _ + u.recvIo.length ≤ 1
    rw [length]
    exact inc.token
  · intro live none
    rw [same unsocketed_le] at none
    show u.Socket = u.acceptedSocket
    rw [socket, sock]
    exact inc.socket (alive live) none
  · intro live none
    rw [same uncleared_le] at none
    show ∀ b ∈ u.RecvBuffer.contents, b.origin = u.acceptedSocket
    rw [buffer, sock]
    exact inc.contents (alive live) none
  · show ∀ io ∈ u.recvIo, Posted u.RecvBuffer u.acceptedSocket io
    rw [buffer, sock]
    rcases recvIo with same | cancelled
    · rw [same]
      exact inc.posted
    · rw [cancelled]
      intro io member
      obtain ⟨io, old, rfl⟩ := List.mem_map.mp member
      split
      · exact (inc.posted io old).cancel
      · exact inc.posted io old
  · intro x hx
    show Reading u.RecvBuffer u.acceptedSocket x.pc
    rw [buffer, sock]
    rcases mem_moved hx with old | rfl
    · exact inc.threads x old
    · exact reading_aside aside'

theorem Incoming.step_receiver (inc : Incoming s) (counts : Counts cfg s)
    (rounds : ∀ t ∈ s.threads, t.pc.initialises = true → ∃ address, t.role = .accept s.accepted s.acceptedSocket address)
    (at_i : s.threads[i]? = some t) (taken : next cfg s t.role ans t.pc = some (u, pc')) (receives : receiving t.pc = 1) :
    Incoming (s.moved u i t pc') := by
  have member := List.mem_of_getElem? at_i
  obtain ⟨-, sock, -⟩ := next_accepted taken
  have token := inc.token
  have changed := weigh_moved receiving u pc' at_i
  have own := le_weigh (w := receiving) member
  -- the others do not receive
  have alone {w : Pc → Nat} (le : ∀ pc, w pc ≤ receiving pc) : weigh w s = w t.pc := by
    have gone := weigh_moved w u .finished at_i
    have rest := weigh_moved receiving u .finished at_i
    have := weigh_le (s := s.moved u i t .finished) le
    have := le .finished
    have : receiving .finished = 0 := rfl
    omega
  have uncleared_le (pc : Pc) := Nat.le_trans (uncleared_le pc) (initialising_le_receiving pc)
  have unsocketed_le' (pc : Pc) := Nat.le_trans (unsocketed_le pc) (uncleared_le pc)
  have live (socketed : unsocketed t.pc = 0) : (core s).live = 1 :=
    counts.inv.live_of_within (mem_stages member) (within_of_receiving receives socketed)
  have reads : Receives s s.acceptedSocket t.pc := by
    refine ⟨by omega, fun socketed => ?_, fun cleared => ?_, inc.posted, inc.threads t member⟩
    · exact inc.socket (live socketed) (by rw [alone unsocketed_le']; exact socketed)
    · have := unsocketed_le t.pc
      exact inc.contents (live (by omega)) (by rw [alone uncleared_le]; exact cleared)
  obtain ⟨token', socket', contents', posted', reading'⟩ := next_receives taken receives
    (fun init => (rounds t member init).imp' (fun _ => s.accepted) fun address is => ⟨address, is⟩) reads
  rw [← sock] at socket' contents' posted' reading'
  refine ⟨?_, fun _ none => socket' ?_, fun _ none => contents' ?_, posted', ?_⟩
  · show _ + u.recvIo.length ≤ 1
    omega
  · have := le_weigh (w := unsocketed) (s := s.moved u i t pc') (t := ⟨t.role, pc'⟩)
      (List.mem_set (List.getElem?_eq_some_iff.mp at_i).1 _)
    simp only at this
    omega
  · have := le_weigh (w := uncleared) (s := s.moved u i t pc') (t := ⟨t.role, pc'⟩)
      (List.mem_set (List.getElem?_eq_some_iff.mp at_i).1 _)
    simp only at this
    omega
  · intro x hx
    rcases moved_at hx with rfl | ⟨j, apart, at_j⟩
    · exact reading'
    · have two := add_le_total (w := fun t : Thread => receiving t.pc) at_i at_j apart
      refine reading_aside ?_
      unfold weigh at token
      omega

theorem Incoming.accept (counts : Counts cfg s) (h : step cfg s (.accept count sock address) = some s') :
    Incoming s' := by
  have threads := congrArg Slot.threads (step_accept h).2
  obtain ⟨key, rfl⟩ := step_accept h
  obtain ⟨dead, no_init, no_act, no_ops⟩ := counts.vacant key
  have no_receiver : weigh receiving s = 0 := by
    have := weigh_le (s := s) receiving_le
    rw [weigh_add] at this
    omega
  have none : s.recvIo = [] := List.length_eq_zero_iff.mp (by simp only [core] at no_ops; omega)
  refine ⟨?_, ?_, ?_, ?_, ?_⟩
  · rw [weigh_join threads, no_receiver]
    simp [none, total, receiving, initialising, Pc.initialises]
  · intro live
    have live : (core s).live = 1 := live
    omega
  · intro live
    have live : (core s).live = 1 := live
    omega
  · simp [none]
  · intro t ht
    rcases List.mem_append.mp ht with old | new
    · have := le_weigh (w := receiving) old
      exact reading_aside (by omega)
    · obtain rfl := List.mem_singleton.mp new
      trivial

/-- Outside the threads, the right to receive goes from an operation to the worker that handles its completion. -/
theorem Incoming.join (inc : Incoming s) (same : s.Untouched s') (sock : s'.acceptedSocket = s.acceptedSocket)
    (threads : s'.threads = s.threads ++ new) (uninit : ∀ t ∈ new, t.pc.initialises = false)
    (token : total (fun t => receiving t.pc) new + s'.recvIo.length ≤ s.recvIo.length)
    (contents : s'.RecvBuffer.contents = s.RecvBuffer.contents)
    (posted : ∀ io ∈ s'.recvIo, Posted s'.RecvBuffer s.acceptedSocket io)
    (old : ∀ t ∈ s.threads, Reading s'.RecvBuffer s.acceptedSocket t.pc)
    (joined : ∀ t ∈ new, Reading s'.RecvBuffer s.acceptedSocket t.pc) : Incoming s' := by
  have live : (core s').live = (core s).live := live_eq same.count same.inits
  have weights {w : Pc → Nat} (le : ∀ pc, w pc ≤ initialising pc) : weigh w s' = weigh w s := by
    have none : total (fun t : Thread => w t.pc) new = 0 := total_eq_zero.mpr fun t ht => by
      have := le t.pc
      simp only [initialising, uninit t ht, Bool.toNat_false] at this
      omega
    rw [weigh_join threads, none]
    rfl
  refine ⟨?_, ?_, ?_, ?_, ?_⟩
  · rw [weigh_join threads]
    have := inc.token
    omega
  · rw [live, weights fun pc => Nat.le_trans (unsocketed_le pc) (uncleared_le pc), same.socket, sock]
    exact inc.socket
  · rw [live, weights uncleared_le, contents, sock]
    exact inc.contents
  · rw [sock]
    exact posted
  · intro t ht
    rw [threads] at ht
    rw [sock]
    exact (List.mem_append.mp ht).elim (old t) (joined t)

theorem Incoming.only (inc : Incoming s) (at_j : s.recvIo[j]? = some io) :
    s.recvIo = [io] ∧ j = 0 ∧ ∀ t ∈ s.threads, receiving t.pc = 0 := by
  have token := inc.token
  have lt := (List.getElem?_eq_some_iff.mp at_j).1
  obtain ⟨io', only⟩ := List.length_eq_one_iff.mp (show s.recvIo.length = 1 by omega)
  obtain rfl : j = 0 := by omega
  rw [only] at at_j ⊢
  refine ⟨by simpa using at_j, rfl, fun t ht => ?_⟩
  have := le_weigh (w := receiving) ht
  omega

theorem Incoming.step_outside (inc : Incoming s) (counts : Counts cfg s) (h : step cfg s l = some s')
    (outside : ∀ i ans, l ≠ .thread i ans) : Incoming s' := by
  have same := (Session.step_outside h outside).1
  cases l with
  | accept count sock address => exact Incoming.accept counts h
  | call call sessionID =>
    obtain rfl := Option.some.inj h
    exact inc.join same rfl rfl (by simp [Pc.initialises]) (by simp [Slot.spawn, total, receiving, initialising, Pc.initialises])
      rfl inc.posted inc.threads (by simp [Reading])
  | recvCompletes j data =>
    obtain ⟨io, at_j, short, rfl⟩ := step_recvCompletes h
    obtain ⟨own, behind, fits, -⟩ := inc.posted io (List.mem_of_getElem? at_j)
    obtain ⟨kept, arrived⟩ := fill_posted io behind fits short
    obtain ⟨only, rfl, idle⟩ := inc.only at_j
    refine inc.join same rfl (List.append_nil _).symm (by simp) (by simp) kept ?_
      (fun t ht => reading_aside (idle t ht)) (by simp)
    intro io' member
    obtain rfl : io' = _ := by simpa [only] using member
    refine ⟨own, behind, fits, fun n is => ?_⟩
    cases is
    rw [← own]
    exact arrived
  | recvFails j =>
    obtain ⟨io, at_j, rfl⟩ := step_recvFails h
    obtain ⟨own, behind, fits, -⟩ := inc.posted io (List.mem_of_getElem? at_j)
    refine inc.join same rfl (List.append_nil _).symm (by simp) (by simp) rfl (fun io' member => ?_) inc.threads (by simp)
    rcases List.mem_or_eq_of_mem_set member with old | rfl
    · exact inc.posted io' old
    · exact ⟨own, behind, fits, by simp⟩
  | sendCompletes j =>
    obtain ⟨io, -, rfl⟩ := step_sendCompletes h
    exact inc.join same rfl (List.append_nil _).symm (by simp) (by simp) rfl inc.posted inc.threads (by simp)
  | sendFails j =>
    obtain ⟨io, -, rfl⟩ := step_sendFails h
    exact inc.join same rfl (List.append_nil _).symm (by simp) (by simp) rfl inc.posted inc.threads (by simp)
  | workRecv j =>
    obtain ⟨io, success, n, at_j, status, rfl⟩ := step_workRecv h
    obtain ⟨-, -, -, arrived⟩ := inc.posted io (List.mem_of_getElem? at_j)
    obtain ⟨only, rfl, -⟩ := inc.only at_j
    refine inc.join same rfl rfl ?_ ?_ rfl (by simp [only]) inc.threads ?_
    · cases success <;> simp [Pc.initialises]
    · cases success <;> simp [only, total, receiving, initialising, Pc.initialises]
    · intro t ht
      obtain rfl := List.mem_singleton.mp ht
      cases success with
      | false => trivial
      | true => exact arrived n status
  | workSend j =>
    obtain ⟨io, success, n, -, -, rfl⟩ := step_workSend h
    refine inc.join same rfl rfl ?_ ?_ rfl inc.posted inc.threads ?_
    all_goals cases success <;> simp [Pc.initialises, total, receiving, initialising, Reading]
  | workRelease j =>
    obtain ⟨sessionID, -, rfl⟩ := step_workRelease h
    exact inc.join same rfl rfl (by simp [Pc.initialises]) (by simp [total, receiving, initialising, Pc.initialises])
      rfl inc.posted inc.threads (by simp [Reading])
  | thread i ans => exact absurd rfl (outside i ans)

/-! ### Runs of a slot -/

structure Separate (cfg : Config) (s : Slot) : Prop where
  counts : Counts cfg s
  identified : Identified cfg s
  linked : Linked s
  incoming : Incoming s

theorem Incoming.step (inc : Incoming s) (counts : Counts cfg s)
    (rounds : ∀ t ∈ s.threads, t.pc.initialises = true → ∃ address, t.role = .accept s.accepted s.acceptedSocket address)
    (few : Few cfg s l) (h : step cfg s l = some s') : Incoming s' := by
  by_cases threaded : ∃ i ans, l = .thread i ans
  · obtain ⟨i, ans, rfl⟩ := threaded
    have few := few s' h
    obtain ⟨t, u, pc', at_i, taken, rfl⟩ := step_thread h
    have member := List.mem_of_getElem? at_i
    by_cases aside : receiving t.pc = 0
    · refine inc.step_aside at_i taken aside fun live => ?_
      rw [← refs_core, stages_moved] at few
      rcases (counts.inv.move_live (stages_at at_i) (counts.move member taken) few).2 with same | ⟨revived, -⟩ | ⟨-, -, -, dead⟩
      · exact same.symm.trans live
      · have := receiving_of_revival revived
        omega
      · exact absurd (live.symm.trans dead) (by decide)
    · have := receiving_le_one t.pc
      exact inc.step_receiver counts rounds at_i taken (by omega)
  · exact inc.step_outside counts h fun i ans is => threaded ⟨i, ans, is⟩

theorem Run.separate (run : Run (slot cfg) (fun s l => Few cfg s l ∧ Called cfg s l) tr s) : Separate cfg s := by
  have linked : Linked s := run.invariant_state (fun s (fresh : s.Fresh) => by simp [Linked, fresh.queue, weigh, fresh.idle.1])
    fun _ _ _ linked _ h => linked.step h
  have incoming := run.invariant (I := fun _ s => Incoming s) (fun s fresh => Incoming.init fresh)
    fun _ s l s' before incoming known h => by
      obtain ⟨counts, id⟩ := Run.identified before
      exact incoming.step counts id.rounds known.1 h
  obtain ⟨counts, id⟩ := Run.identified run
  exact ⟨counts, id, linked, incoming⟩

theorem Outgoing.step (out : Outgoing cfg s) (sep : Separate cfg s) (countable : Countable cfg s) (few : Few cfg s l)
    (h : step cfg s l = some s') : Outgoing cfg s' := by
  by_cases threaded : ∃ i ans, l = .thread i ans
  · obtain ⟨i, ans, rfl⟩ := threaded
    exact out.step_move sep.linked countable sep.counts sep.identified few h
  · exact out.step_outside sep.counts h fun i ans is => threaded ⟨i, ans, is⟩

/-- A thread hands its packets to the socket of the slot's session. -/
theorem Separate.socket (sep : Separate cfg s) (member : t ∈ s.threads) (here : t.pc = .wsaSend wsabuf) :
    s.ID = newSessionID cfg s.accepted ∧ s.Socket = s.acceptedSocket := by
  have acts : 0 < acting t.pc := by rw [here]; exact Nat.one_pos
  obtain ⟨live, nobody, named⟩ := sep.identified.working sep.counts member acts
  have socketers := weigh_le (s := s) fun pc => Nat.le_trans (unsocketed_le pc) (uncleared_le pc)
  exact ⟨named, sep.incoming.socket live (by omega)⟩

/-- What a thread hands to `WSASend` was enqueued under the ID of the slot's session, and goes to its socket. -/
theorem Separate.send (sep : Separate cfg s) (out : Outgoing cfg s) (member : t ∈ s.threads) (here : t.pc = .wsaSend wsabuf) :
    s.ID = newSessionID cfg s.accepted ∧ s.Socket = s.acceptedSocket ∧ ∀ q ∈ wsabuf, q.sender = s.ID := by
  obtain ⟨named, socket⟩ := sep.socket member here
  refine ⟨named, socket, fun q hq => ?_⟩
  rw [named]
  exact out.batches t member q (by rw [here]; exact hq)

/-- What a thread hands to `OnReceive` came from the socket of the slot's session, whose ID it passes. -/
theorem Separate.receive (sep : Separate cfg s) (member : t ∈ s.threads) (here : t.pc = .onReceive frame) :
    s.ID = newSessionID cfg s.accepted ∧ ∀ b ∈ frame, b.origin = s.acceptedSocket := by
  have acts : 0 < acting t.pc := by rw [here]; exact Nat.one_pos
  obtain ⟨-, -, named⟩ := sep.identified.working sep.counts member acts
  have reading := sep.incoming.threads t member
  rw [here] at reading
  exact ⟨named, reading⟩

end WanNet.Session
