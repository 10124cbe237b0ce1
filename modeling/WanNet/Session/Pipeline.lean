import WanNet.Session.SendPath

/-!
Packets on their way through `SendQueue` and the batches of `PostSend` to `WSASend`, and what of them
`SendAndDisconnect` can count on.
-/

namespace WanNet.Session
open Transition Threads ReleaseCount

variable {cfg : Config} {s s' u : Slot} {role : Role} {ans : Answer} {pc pc' : Pc} {t : Thread} {i : Nat}

/-! ### What a run has sent -/

/-- The packets enqueued, dequeued and handed to `WSASend` so far, and those that the latest re-read
of `GetCount()` is going to have handed over. -/
structure Tally where
  enqueued : List Queued := []
  dequeued : List Queued := []
  handed : List Queued := []
  planned : List Queued := []

/-- The packets a `PostSend` takes that re-reads the count now. -/
def batchAhead (cfg : Config) (s : Slot) : List Queued := s.SendQueue.take (min (cfg.getCount s.SendQueueCount) maxWsaBufCount)

def Tally.thread (cfg : Config) (T : Tally) (s : Slot) (t : Thread) : Tally :=
  match t.pc with
  | .callEnqueue =>
    match t.role with
    | .api (.sendPacket packet) sessionID | .api (.sendAndDisconnect packet) sessionID =>
      { T with enqueued := T.enqueued ++ [⟨packet, sessionID⟩] }
    | _ => T
  | .sendRecount => { T with planned := T.dequeued ++ batchAhead cfg s }
  | .sendDequeue sendCount wsabuf =>
    if wsabuf.length < maxWsaBufCount ∧ sendCount ≠ 0 then { T with dequeued := T.dequeued ++ s.SendQueue.take 1 } else T
  | .wsaSend wsabuf => { T with handed := T.handed ++ wsabuf }
  | _ => T

def Tally.add (cfg : Config) (T : Tally) (x : Slot × Label) : Tally :=
  match x.2 with
  | .thread i _ => (x.1.threads[i]?).elim T (T.thread cfg x.1)
  | _ => T

def tally (cfg : Config) (tr : List (Slot × Label)) : Tally := tr.foldl (Tally.add cfg) {}

/-- The packets a thread has dequeued, and how many more it is going to dequeue for this batch. -/
def batchOf : Pc → List Queued
  | .sendDequeue _ wsabuf | .wsaSend wsabuf => wsabuf
  | _ => []

def restOf : Pc → Nat
  | .sendDequeue sendCount wsabuf => min sendCount (maxWsaBufCount - wsabuf.length)
  | _ => 0

theorem restOf_succ {n : Nat} {wsabuf : List Queued} (more : wsabuf.length < maxWsaBufCount ∧ n ≠ 0) (packet : Queued) :
    restOf (.sendDequeue n wsabuf) = restOf (.sendDequeue (n - 1) (wsabuf ++ [packet])) + 1 := by
  simp only [restOf, List.length_append, List.length_singleton]
  omega

/-- Between the two halves of an `Enqueue`. -/
def counting : Pc → Nat
  | .callCount => 1
  | _ => 0

/-- Neither initialising nor releasing the slot. -/
def Pc.onSession (pc : Pc) : Prop := pc.initialises = false ∧ releasing (stage pc) = 0

theorem next_onSession (h : next cfg s role ans pc = some (s', pc')) (live : pc.onSession) (quiet : eventAt s pc = none) :
    pc'.onSession := by
  obtain ⟨noinit, norelease⟩ := live
  cases next_moves h with
  | decCas again last => simp [eventAt, last] at quiet
  | decDecrement again => cases again <;> exact ⟨rfl, rfl⟩
  | _ =>
    first
      | exact ⟨rfl, rfl⟩
      | cases noinit; done
      | cases norelease

theorem positive_of_getCount {count : Nat} (left : cfg.getCount count ≠ 0) : 0 < count :=
  Nat.lt_of_lt_of_le (Nat.pos_of_ne_zero left) (getCount_le cfg count)

/-- An element is visible before it is counted only while its thread is inside `Enqueue`. -/
theorem next_linked (h : next cfg s role ans pc = some (s', pc')) :
    s'.SendQueue.length + s.SendQueueCount + counting pc = s.SendQueue.length + s'.SendQueueCount + counting pc' := by
  cases next_moves h with
  | callEnqueueShows | callEnqueue | callCount =>
    simp only [counting, List.length_append, List.length_singleton]
    omega
  | initDrain first rest left queue | sendDequeue _ _ first rest more left queue =>
    have := positive_of_getCount left
    simp only [counting, queue, List.length_cons]
    omega
  | decDecrement again | releasePush again => cases again <;> rfl
  | _ => rfl

/-- A step off the queue: the only way to become a carrier is to win the flag. -/
theorem next_off_queue (h : next cfg s role ans pc = some (s', pc')) (live : pc.onSession)
    (off : carrying pc = 0) (noenqueue : pc ≠ .callEnqueue) :
    s'.SendQueue = s.SendQueue ∧ s.SendQueueCount ≤ s'.SendQueueCount ∧
      (carrying pc' = 0 ∧ restOf pc' = 0 ∨ s.bSendFlag = 0 ∧ pc' = .sendRecount) := by
  obtain ⟨noinit, -⟩ := live
  cases next_moves h with
  | callEnqueueShows | callEnqueue => exact absurd rfl noenqueue
  | callCount => exact ⟨rfl, Nat.le_succ _, .inl ⟨rfl, rfl⟩⟩
  | sendTakeFlag free => exact ⟨rfl, Nat.le_refl _, .inr ⟨free, rfl⟩⟩
  | decDecrement again | releasePush again => cases again <;> exact ⟨rfl, Nat.le_refl _, .inl ⟨rfl, rfl⟩⟩
  | _ =>
    first
      | exact ⟨rfl, Nat.le_refl _, .inl ⟨rfl, rfl⟩⟩
      | cases noinit; done
      | cases off

/-- The flag has at most one holder; a failed send leaves it set without one. -/
theorem next_token (h : next cfg s role ans pc = some (s', pc')) (noinit : pc.initialises = false) (others : Nat)
    (held : others + s.sendIo.length + carrying pc + finishing pc ≤ s.bSendFlag)
    (one : others + s.sendIo.length + carrying pc + finishing pc ≤ 1) :
    others + s'.sendIo.length + carrying pc' + finishing pc' ≤ s'.bSendFlag ∧
      others + s'.sendIo.length + carrying pc' + finishing pc' ≤ 1 := by
  cases next_moves h with
  | sendFlagTaken => exact ⟨one, one⟩
  | sendTakeFlag | sendGiveBack | sendGiveBackCrash | sendDequeueCrash | wsaSend | wsaSendAtOnce | wsaSendFails
  | sendDoneRegistered | sendDoneClearFlag | sendDoneCrash =>
    simp only [carrying, finishing, List.length_append, List.length_singleton] at held one ⊢
    omega
  | callCancel | recvCancel | sendCancel =>
    have same : (cancelIo s).sendIo.length = s.sendIo.length := List.length_map _
    rw [same]
    exact ⟨held, one⟩
  | decDecrement again | releasePush again => cases again <;> exact ⟨held, one⟩
  | _ =>
    first
      | exact ⟨held, one⟩
      | cases noinit

/-- The tally and the queue fit the batch of a thread. -/
structure Batched (T : Tally) (s : Slot) (pc : Pc) : Prop where
  enough : restOf pc ≤ s.SendQueueCount
  fifo : T.enqueued = T.dequeued ++ s.SendQueue
  dequeued : T.dequeued = T.handed ++ batchOf pc
  planned : T.planned = T.dequeued ++ s.SendQueue.take (restOf pc)

/-- A carrier's step keeps them fitting, but for the failed `TryDequeue` of a count that has wrapped around. -/
theorem next_carrier (h : next cfg s t.role ans t.pc = some (s', pc')) (carries : carrying t.pc = 1)
    (counted : s.SendQueueCount ≤ s.SendQueue.length) (batched : Batched T s t.pc) (alive : pc' ≠ .crashed 1) :
    Batched (T.thread cfg s t) s' pc' := by
  obtain ⟨enough, fifo, dequeued, planned⟩ := batched
  have countable := getCount_le cfg s.SendQueueCount
  obtain ⟨role, pc⟩ := t
  cases next_moves h with
  | sendRecountsNone none =>
    simp only [batchOf, List.append_nil] at dequeued
    exact ⟨Nat.zero_le _, fifo, by simp [Tally.thread, batchOf, dequeued], by simp [Tally.thread, batchAhead, none, restOf]⟩
  | sendRecount =>
    simp only [batchOf, List.append_nil] at dequeued
    exact ⟨Nat.le_trans (Nat.min_le_left _ _) countable, fifo, by simp [Tally.thread, batchOf, dequeued],
      by simp [Tally.thread, batchAhead, restOf]⟩
  | sendGiveBack => exact ⟨Nat.zero_le _, fifo, dequeued, planned⟩
  | sendGiveBackCrash | sendDequeueCrash => exact absurd rfl alive
  | sendDequeueWaits n wsabuf more left empty =>
    rw [empty, List.length_nil] at counted
    omega
  | sendDequeue n wsabuf packet queue more left is =>
    have takes : (T.thread cfg s ⟨role, .sendDequeue n wsabuf⟩) = { T with dequeued := T.dequeued ++ [packet] } := by
      simp [Tally.thread, more, is]
    have enough : restOf (.sendDequeue n wsabuf) ≤ s.SendQueueCount := enough
    rw [restOf_succ more packet] at enough planned
    rw [takes]
    refine ⟨by simp only; omega, ?_, ?_, ?_⟩
    · simp [fifo, is]
    · simp [dequeued, batchOf]
    · simp [planned, is]
  | sendIncrement n wsabuf full =>
    have rest : restOf (.sendDequeue n wsabuf) = 0 := by
      simp only [restOf]
      omega
    rw [rest] at planned
    refine ⟨Nat.zero_le _, ?_, ?_, ?_⟩
    · simpa [Tally.thread, full] using fifo
    · simpa [Tally.thread, full, batchOf] using dequeued
    · simpa [Tally.thread, full, restOf] using planned
  | wsaSend | wsaSendAtOnce | wsaSendFails =>
    refine ⟨Nat.zero_le _, fifo, ?_, planned⟩
    rw [show batchOf _ = [] from rfl, List.append_nil]
    exact dequeued
  | _ => cases carries

theorem Batched.as (batched : Batched T s pc) (batch : batchOf pc' = batchOf pc) (rest : restOf pc' = restOf pc)
    (queue : u.SendQueue = s.SendQueue) (count : s.SendQueueCount ≤ u.SendQueueCount) : Batched T u pc' := by
  obtain ⟨enough, fifo, dequeued, planned⟩ := batched
  rw [← queue] at fifo planned
  refine ⟨?_, fifo, ?_, ?_⟩
  · omega
  · rw [batch]
    exact dequeued
  · rw [rest]
    exact planned

theorem Batched.enqueue (batched : Batched T s pc) (counted : s.SendQueueCount ≤ s.SendQueue.length)
    (queue : u.SendQueue = s.SendQueue ++ [packet]) (count : s.SendQueueCount ≤ u.SendQueueCount) :
    Batched { T with enqueued := T.enqueued ++ [packet] } u pc := by
  obtain ⟨enough, fifo, dequeued, planned⟩ := batched
  refine ⟨by omega, by simp [queue, fifo], dequeued, ?_⟩
  show T.planned = _
  rw [queue, List.take_append_of_le_length (by omega)]
  exact planned

theorem batch_of_noncarrier (none : carrying pc = 0) : batchOf pc = [] ∧ restOf pc = 0 := by
  cases pc
  all_goals first
    | exact ⟨rfl, rfl⟩
    | simp [carrying] at none

/-- The flag has at most one holder; the packets counted as dequeued are those handed over and the
batch in the hands of the carrier, if there is one. -/
structure Piped (T : Tally) (s : Slot) : Prop where
  threads : ∀ t ∈ s.threads, t.pc.onSession
  token : holders s ≤ s.bSendFlag ∧ s.bSendFlag ≤ 1
  counted : s.SendQueueCount + weigh counting s = s.SendQueue.length
  carried : ∀ t ∈ s.threads, carrying t.pc = 1 → Batched T s t.pc
  idle : weigh carrying s = 0 → Batched T s .finished

theorem carrying_le (pc : Pc) : carrying pc ≤ 1 := by
  cases pc <;> simp [carrying]

theorem Piped.alone (piped : Piped T s) (at_i : s.threads[i]? = some t) (carries : carrying t.pc = 1)
    (at_j : s.threads[j]? = some x) (apart : j ≠ i) : carrying x.pc = 0 := by
  have two := add_le_total (w := fun t : Thread => carrying t.pc) at_i at_j apart
  have := piped.token
  unfold holders weigh at this
  omega

theorem moved_at {x : Thread} (hx : x ∈ (s.moved u i t pc').threads) :
    x = ⟨t.role, pc'⟩ ∨ ∃ j, j ≠ i ∧ s.threads[j]? = some x :=
  mem_set_at hx

theorem tally_enqueue {T : Tally} (here : t.pc = .callEnqueue) (taken : next cfg s t.role ans t.pc = some (u, pc')) : ∃ packet,
    T.thread cfg s t = { T with enqueued := T.enqueued ++ [packet] } ∧ u.SendQueue = s.SendQueue ++ [packet] ∧
      s.SendQueueCount ≤ u.SendQueueCount ∧ carrying pc' = 0 := by
  obtain ⟨role, pc⟩ := t
  obtain rfl : pc = _ := here
  have tallied (packet sessionID : Nat) (sends : role = .api (.sendPacket packet) sessionID ∨ role = .api (.sendAndDisconnect packet) sessionID) :
      T.thread cfg s ⟨role, .callEnqueue⟩ = { T with enqueued := T.enqueued ++ [⟨packet, sessionID⟩] } := by
    rcases sends with rfl | rfl <;> rfl
  cases next_moves taken with
  | callEnqueueShows packet sessionID sends => exact ⟨_, tallied packet sessionID sends, rfl, Nat.le_refl _, rfl⟩
  | callEnqueue packet sessionID sends => exact ⟨_, tallied packet sessionID sends, rfl, Nat.le_succ _, rfl⟩

theorem tally_off_queue {T : Tally} (off : carrying t.pc = 0) (noenqueue : t.pc ≠ .callEnqueue) : T.thread cfg s t = T := by
  obtain ⟨role, pc⟩ := t
  cases pc
  all_goals first
    | rfl
    | exact absurd rfl noenqueue
    | simp [carrying] at off

theorem Piped.batches (piped : Piped T s) (at_i : s.threads[i]? = some t)
    (taken : next cfg s t.role ans t.pc = some (u, pc')) (alive : pc' ≠ .crashed 1) :
    (∀ x ∈ (s.moved u i t pc').threads, carrying x.pc = 1 → Batched (T.thread cfg s t) u x.pc) ∧
      (weigh carrying (s.moved u i t pc') = 0 → Batched (T.thread cfg s t) u .finished) := by
  have member := List.mem_of_getElem? at_i
  have carriers := weigh_moved carrying u pc' at_i
  have carrier := le_weigh (w := carrying) member
  have counted := Nat.le.intro piped.counted
  by_cases carries : carrying t.pc = 1
  · have batched := next_carrier taken carries counted (piped.carried t member carries) alive
    refine ⟨fun x hx other => ?_, fun none => ?_⟩
    · rcases moved_at hx with rfl | ⟨j, apart, at_j⟩
      · exact batched
      · have := piped.alone at_i carries at_j apart
        omega
    · have none : carrying pc' = 0 := by omega
      obtain ⟨batch, rest⟩ := batch_of_noncarrier none
      exact batched.as (by rw [batch]; rfl) (by rw [rest]; rfl) rfl (Nat.le_refl _)
  · have idles : carrying t.pc = 0 := by
      have := carrying_le t.pc
      omega
    by_cases here : t.pc = .callEnqueue
    · obtain ⟨packet, tallied, queue, count, off⟩ := tally_enqueue (T := T) here taken
      rw [tallied]
      refine ⟨fun x hx other => ?_, fun none => ?_⟩
      · rcases mem_moved hx with old | rfl
        · exact (piped.carried x old other).enqueue counted queue count
        · simp only at other
          omega
      · exact (piped.idle (by omega)).enqueue counted queue count
    · obtain ⟨queue, count, moves⟩ := next_off_queue taken (piped.threads t member) idles here
      rw [tally_off_queue idles here]
      rcases moves with ⟨still, rest⟩ | ⟨free, rfl⟩
      · refine ⟨fun x hx other => ?_, fun none => ?_⟩
        · rcases mem_moved hx with old | rfl
          · exact (piped.carried x old other).as rfl rfl queue count
          · simp only at other
            omega
        · exact (piped.idle (by omega)).as rfl rfl queue count
      · -- who wins the flag finds nobody else with a batch
        have none : weigh carrying s = 0 := by
          have token := piped.token
          unfold holders at token
          omega
        refine ⟨fun x hx other => ?_, fun _ => (piped.idle none).as rfl rfl queue count⟩
        rcases mem_moved hx with old | rfl
        · have := le_weigh (w := carrying) old
          omega
        · exact (piped.idle none).as rfl rfl queue count

theorem Piped.step_move (piped : Piped T s) (at_i : s.threads[i]? = some t)
    (taken : next cfg s t.role ans t.pc = some (u, pc')) (quiet : eventAt s t.pc = none) (alive : pc' ≠ .crashed 1) :
    Piped (T.thread cfg s t) (s.moved u i t pc') := by
  have member := List.mem_of_getElem? at_i
  have live := piped.threads t member
  have carriers := weigh_moved carrying u pc' at_i
  have finishers := weigh_moved finishing u pc' at_i
  have counters := weigh_moved counting u pc' at_i
  have carrier := le_weigh (w := carrying) member
  have finisher := le_weigh (w := finishing) member
  have counter := le_weigh (w := counting) member
  have token := piped.token
  have free := next_flag taken token.2
  have token' : holders (s.moved u i t pc') ≤ u.bSendFlag := by
    have := next_token taken live.1 (weigh carrying s - carrying t.pc + (weigh finishing s - finishing t.pc))
      (by unfold holders at token; omega) (by unfold holders at token; omega)
    unfold holders
    show _ + u.sendIo.length + _ ≤ _
    omega
  have counted : u.SendQueueCount + weigh counting (s.moved u i t pc') = u.SendQueue.length := by
    have kept := piped.counted
    have := next_linked taken
    omega
  have live' : ∀ x ∈ (s.moved u i t pc').threads, x.pc.onSession := by
    intro x hx
    rcases mem_moved hx with old | rfl
    · exact piped.threads x old
    · exact next_onSession taken live quiet
  obtain ⟨carried, idle⟩ := piped.batches at_i taken alive
  exact ⟨live', ⟨token', free⟩, counted, fun x hx carries => (carried x hx carries).as rfl rfl rfl (Nat.le_refl _),
    fun none => (idle none).as rfl rfl rfl (Nat.le_refl _)⟩

theorem Piped.outside (piped : Piped T s) (same : s.Untouched s') (threads : s'.threads = s.threads ++ new)
    (live : ∀ t ∈ new, t.pc.onSession) (none : ∀ t ∈ new, carrying t.pc + counting t.pc = 0)
    (token : s'.sendIo.length + total (fun t => finishing t.pc) new ≤ s.sendIo.length) : Piped T s' := by
  have carriers : weigh carrying s' = weigh carrying s := by
    rw [weigh_join threads, total_eq_zero.mpr fun t ht => Nat.eq_zero_of_add_eq_zero_right (none t ht)]
    rfl
  have counters : weigh counting s' = weigh counting s := by
    rw [weigh_join threads, total_eq_zero.mpr fun t ht => Nat.eq_zero_of_add_eq_zero_left (none t ht)]
    rfl
  have split {x : Thread} (hx : x ∈ s'.threads) : x ∈ s.threads ∨ x ∈ new := by
    rw [threads] at hx
    exact List.mem_append.mp hx
  obtain ⟨queue, count⟩ := same.queue
  refine ⟨fun x hx => (split hx).elim (piped.threads x) (live x), ?_, ?_, fun x hx carries => ?_, fun idle => ?_⟩
  · have := piped.token
    rw [same.flag]
    unfold holders at *
    rw [carriers, weigh_join threads]
    omega
  · rw [count, counters, queue]
    exact piped.counted
  · rcases split hx with old | joined
    · exact (piped.carried x old carries).as rfl rfl queue (Nat.le_of_eq count.symm)
    · have := none x joined
      omega
  · exact (piped.idle (by omega)).as rfl rfl queue (Nat.le_of_eq count.symm)

/-- Outside the threads, the flag goes from an operation to the worker that handles its completion. -/
theorem Piped.step_outside (piped : Piped T s) (unused : s.unusedKeys = 0) (h : step cfg s l = some s')
    (outside : ∀ i ans, l ≠ .thread i ans) : Piped T s' := by
  have same := (Session.step_outside h outside).1
  cases l with
  | accept count sock address =>
    have := (step_accept h).1
    omega
  | call call sessionID =>
    obtain rfl := Option.some.inj h
    exact piped.outside same rfl (by simp [Pc.onSession, Pc.initialises, stage]) (by simp [carrying, counting]) (Nat.le_refl _)
  | recvCompletes j data =>
    obtain ⟨io, -, -, rfl⟩ := step_recvCompletes h
    exact piped.outside same (List.append_nil _).symm (by simp) (by simp) (Nat.le_refl _)
  | recvFails j =>
    obtain ⟨io, -, rfl⟩ := step_recvFails h
    exact piped.outside same (List.append_nil _).symm (by simp) (by simp) (Nat.le_refl _)
  | sendCompletes j =>
    obtain ⟨io, -, rfl⟩ := step_sendCompletes h
    exact piped.outside same (List.append_nil _).symm (by simp) (by simp) (by simp)
  | sendFails j =>
    obtain ⟨io, -, rfl⟩ := step_sendFails h
    exact piped.outside same (List.append_nil _).symm (by simp) (by simp) (by simp)
  | workRecv j =>
    obtain ⟨io, success, n, -, -, rfl⟩ := step_workRecv h
    refine piped.outside same rfl ?_ ?_ ?_
    all_goals cases success <;> simp [Pc.onSession, Pc.initialises, stage, carrying, counting, finishing, total]
  | workSend j =>
    obtain ⟨io, success, n, at_j, -, rfl⟩ := step_workSend h
    have shorter := length_eraseIdx_add_one at_j
    refine piped.outside same rfl ?_ ?_ ?_
    · cases success <;> simp [Pc.onSession, Pc.initialises, stage]
    · cases success <;> simp [carrying, counting]
    · rw [← shorter]
      cases success <;> simp [finishing, total]
  | workRelease j =>
    obtain ⟨sessionID, -, rfl⟩ := step_workRelease h
    exact piped.outside same rfl (by simp [Pc.onSession, Pc.initialises, stage]) (by simp [carrying, counting]) (Nat.le_refl _)
  | thread i ans => exact absurd rfl (outside i ans)

/-! ### A live session and its release -/

/-- A session that nobody has sent on yet, with its references counted and its key taken. -/
structure Slot.Live (s : Slot) : Prop extends Slot.Opened s where
  counted : s.IoCount = references s
  taken : s.unusedKeys = 0

def liveSession (cfg : Config) : System Slot Label where
  init := Slot.Live
  step := step cfg

def Unreleased (s : Slot) (l : Label) : Prop := eventOf s l = none

instance : Decidable (Unreleased s l) := inferInstanceAs (Decidable (_ = _))

theorem Piped.init (opened : s.Opened) : Piped {} s := by
  obtain ⟨flag, queue, count, sendIo⟩ := opened.unsent
  have none (w : Pc → Nat) (zero : ∀ t ∈ s.threads, w t.pc = 0) : weigh w s = 0 := total_eq_zero.mpr zero
  have carriers := none carrying fun t ht => by have := (opened.threads t ht).2; omega
  have finishers := none finishing fun t ht => by have := (opened.threads t ht).2; omega
  have counters := none counting fun t ht => by
    have apart := (opened.threads t ht).1.2.2
    cases here : t.pc <;> first | rfl | exact absurd here apart
  refine ⟨fun t ht => ⟨(opened.threads t ht).1.1, (opened.threads t ht).1.2.1⟩, ?_, ?_, fun t ht carries => ?_, fun _ => ?_⟩
  · unfold holders
    rw [carriers, finishers, sendIo, flag]
    decide
  · rw [count, counters, queue]
    rfl
  · have := (opened.threads t ht).2
    omega
  · exact ⟨Nat.zero_le _, by simp [queue], rfl, rfl⟩

theorem tally_append (cfg : Config) (tr : List (Slot × Label)) (x : Slot × Label) :
    tally cfg (tr ++ [x]) = (tally cfg tr).add cfg x := by
  simp [tally]

/-- Outside the threads no reference is taken or dropped, and no key is pushed. -/
theorem held_outside (h : step cfg s l = some s') (outside : ∀ i ans, l ≠ .thread i ans) :
    references s' = references s ∧ s'.unusedKeys ≤ s.unusedKeys := by
  cases l with
  | accept count sock address =>
    obtain ⟨-, rfl⟩ := step_accept h
    simp [references, stage]
  | call call sessionID =>
    obtain rfl := Option.some.inj h
    simp [references, stage, Slot.spawn]
  | recvCompletes j data =>
    obtain ⟨io, -, -, rfl⟩ := step_recvCompletes h
    simp [references, fill]
  | recvFails j =>
    obtain ⟨io, -, rfl⟩ := step_recvFails h
    simp [references]
  | sendCompletes j =>
    obtain ⟨io, -, rfl⟩ := step_sendCompletes h
    simp [references]
  | sendFails j =>
    obtain ⟨io, -, rfl⟩ := step_sendFails h
    simp [references]
  | workRecv j =>
    obtain ⟨io, success, n, at_j, -, rfl⟩ := step_workRecv h
    have shorter := length_eraseIdx_add_one at_j
    cases success
    all_goals
      simp [references, stage]
      omega
  | workSend j =>
    obtain ⟨io, success, n, at_j, -, rfl⟩ := step_workSend h
    have shorter := length_eraseIdx_add_one at_j
    cases success
    all_goals
      simp [references, stage]
      omega
  | workRelease j =>
    obtain ⟨sessionID, -, rfl⟩ := step_workRelease h
    simp [references, stage]
  | thread i ans => exact absurd rfl (outside i ans)

/-- The count agrees with the references up to overflow, as long as the session is not released. -/
structure Held (s : Slot) : Prop where
  congr : s.IoCount % flag = refs (core s) (stages s) % flag
  taken : s.unusedKeys = 0

theorem Held.step (holds : Held s) (unreleased : Unreleased s l) (h : step cfg s l = some s') : Held s' := by
  by_cases threaded : ∃ i ans, l = .thread i ans
  · obtain ⟨i, ans, rfl⟩ := threaded
    obtain ⟨t, u, pc', at_i, taken, rfl⟩ := step_thread h
    have quiet : eventAt s t.pc = none := by simpa [Unreleased, eventOf, at_i] using unreleased
    have nopush (again) (push : t.pc = .releasePush again) : s.SessionListKey = cfg.key := by
      rw [push] at quiet
      cases quiet
    refine ⟨?_, (next_quiet taken quiet).1.trans holds.taken⟩
    rw [stages_moved]
    exact (next_move taken nopush).congr_refs (stages_at at_i) holds.congr
  · have outside (i ans) : l ≠ .thread i ans := fun is => threaded ⟨i, ans, is⟩
    obtain ⟨same, keys⟩ := held_outside h outside
    refine ⟨?_, Nat.le_zero.mp (holds.taken ▸ keys)⟩
    rw [refs_core, same, (Session.step_outside h outside).1.count, ← refs_core]
    exact holds.congr

/-- At some step of the run, a `PostSend` that has won the flag re-reads the count, and `packets` are
what has been and what it is going to be taken out of `SendQueue` by then. -/
def Reread (cfg : Config) (tr : List (Slot × Label)) (packets : List Queued) : Prop :=
  ∃ before v j ans after t, tr = before ++ (v, .thread j ans) :: after ∧ v.threads[j]? = some t ∧
    t.pc = .sendRecount ∧ packets = (tally cfg before).dequeued ++ batchAhead cfg v

/-- A thread that stopped at the failed `TryDequeue` of a count that has wrapped around. -/
def Stopped (s : Slot) : Prop := ∃ t ∈ s.threads, t.pc = .crashed 1

theorem Stopped.step (stopped : Stopped s) (h : step cfg s l = some s') : Stopped s' := by
  obtain ⟨x, member, here⟩ := stopped
  by_cases threaded : ∃ i ans, l = .thread i ans
  · obtain ⟨i, ans, rfl⟩ := threaded
    obtain ⟨t, u, pc', at_i, taken, rfl⟩ := step_thread h
    obtain ⟨j, at_j⟩ := List.mem_iff_getElem?.mp member
    have apart : i ≠ j := by
      rintro rfl
      obtain rfl : t = x := Option.some.inj (at_i.symm.trans at_j)
      rw [here] at taken
      cases taken
    refine ⟨x, List.mem_of_getElem? (i := j) ?_, here⟩
    rw [← at_j]
    exact List.getElem?_set_ne apart
  · rcases (step_outside h fun i ans is => threaded ⟨i, ans, is⟩).2 with same | ⟨t, more, -⟩
    · exact ⟨x, by rwa [same], here⟩
    · exact ⟨x, by rw [more]; exact List.mem_append_left _ member, here⟩

theorem run_live (run : Run (liveSession cfg) Unreleased tr s) : Held s ∧ (Stopped s ∨ Piped (tally cfg tr) s) := by
  refine run.invariant (I := fun tr s => Held s ∧ (Stopped s ∨ Piped (tally cfg tr) s))
    (fun s (live : s.Live) => ⟨⟨?_, live.taken⟩, .inr (.init live.toOpened)⟩) ?_
  · rw [refs_core, live.counted]
  intro tr s l s' _ ⟨holds, goes_on⟩ unreleased h
  refine ⟨holds.step unreleased h, ?_⟩
  rcases goes_on with stopped | piped
  · exact .inl (stopped.step h)
  rw [tally_append]
  by_cases threaded : ∃ i ans, l = .thread i ans
  · obtain ⟨i, ans, rfl⟩ := threaded
    obtain ⟨t, u, pc', at_i, taken, rfl⟩ := step_thread h
    have quiet : eventAt s t.pc = none := by simpa [Unreleased, eventOf, at_i] using unreleased
    have tallied : (tally cfg tr).add cfg (s, .thread i ans) = (tally cfg tr).thread cfg s t := by simp [Tally.add, at_i]
    rw [tallied]
    by_cases alive : pc' = .crashed 1
    · exact .inl ⟨⟨t.role, pc'⟩, List.mem_set (List.getElem?_eq_some_iff.mp at_i).1 _, alive⟩
    · exact .inr (piped.step_move at_i taken quiet alive)
  · have outside (i ans) : l ≠ .thread i ans := fun is => threaded ⟨i, ans, is⟩
    have tallied : (tally cfg tr).add cfg (s, l) = tally cfg tr := by
      cases l <;> first | rfl | exact absurd rfl (outside _ _)
    rw [tallied]
    exact .inr (piped.step_outside holds.taken h outside)

theorem Reread.append (reread : Reread cfg tr packets) (x : Slot × Label) : Reread cfg (tr ++ [x]) packets := by
  obtain ⟨before, v, j, ans, after, t, rfl, at_j, here, are⟩ := reread
  exact ⟨before, v, j, ans, after ++ [x], t, by simp, at_j, here, are⟩

theorem Reread.last (reread : Reread cfg (tr ++ [x]) packets) : Reread cfg tr packets ∨
    ∃ j ans t, x.2 = .thread j ans ∧ x.1.threads[j]? = some t ∧ t.pc = .sendRecount ∧
      packets = (tally cfg tr).dequeued ++ batchAhead cfg x.1 := by
  obtain ⟨before, v, j, ans, after, t, split, at_j, here, are⟩ := reread
  rcases List.eq_nil_or_concat after with rfl | ⟨earlier, y, rfl⟩
  · obtain ⟨rfl, last⟩ := List.append_inj' split rfl
    obtain rfl := (List.cons.inj last).1
    exact .inr ⟨j, ans, t, rfl, at_j, here, are⟩
  · rw [List.concat_eq_append, ← List.cons_append, ← List.append_assoc] at split
    obtain ⟨rfl, -⟩ := List.append_inj' split rfl
    exact .inl ⟨before, v, j, ans, earlier, t, rfl, at_j, here, are⟩

theorem planned_thread (cfg : Config) (T : Tally) (s : Slot) (t : Thread) :
    t.pc = .sendRecount ∧ (T.thread cfg s t).planned = T.dequeued ++ batchAhead cfg s ∨
      t.pc ≠ .sendRecount ∧ (T.thread cfg s t).planned = T.planned := by
  obtain ⟨role, pc⟩ := t
  cases pc
  case sendRecount => exact .inl ⟨rfl, rfl⟩
  case callEnqueue => rcases role with ⟨_ | _ | _ | _, _⟩ | _ | _ <;> exact .inr ⟨nofun, rfl⟩
  case sendDequeue => exact .inr ⟨nofun, by simp only [Tally.thread]; split <;> rfl⟩
  all_goals exact .inr ⟨nofun, rfl⟩

/-- What is planned is what the latest re-read found, and that extends what earlier ones found. -/
structure Foreseen (cfg : Config) (tr : List (Slot × Label)) : Prop where
  extends_ : ∀ packets, Reread cfg tr packets → packets <+: (tally cfg tr).planned
  latest : (tally cfg tr).planned = [] ∨ Reread cfg tr (tally cfg tr).planned

theorem Foreseen.rereads (foreseen : Foreseen cfg tr) (piped : Piped (tally cfg tr) s) (at_j : s.threads[j]? = some t)
    (here : t.pc = .sendRecount) : Foreseen cfg (tr ++ [(s, .thread j ans)]) := by
  have batched := piped.carried t (List.mem_of_getElem? at_j) (by rw [here]; rfl)
  have planned : (tally cfg (tr ++ [(s, .thread j ans)])).planned = (tally cfg tr).dequeued ++ batchAhead cfg s := by
    simp [tally_append, Tally.add, at_j, Tally.thread, here]
  have done : (tally cfg tr).planned = (tally cfg tr).dequeued := by simpa [here, restOf] using batched.planned
  refine ⟨fun packets reread => ?_, .inr ⟨tr, s, j, ans, [], t, rfl, at_j, here, planned⟩⟩
  rw [planned]
  rcases reread.last with old | ⟨_, _, _, -, -, -, rfl⟩
  · have earlier := foreseen.extends_ packets old
    rw [done] at earlier
    exact earlier.trans (List.prefix_append ..)
  · exact List.prefix_rfl

theorem Foreseen.other (foreseen : Foreseen cfg tr)
    (none : ∀ j ans t, l = .thread j ans → s.threads[j]? = some t → t.pc ≠ .sendRecount) : Foreseen cfg (tr ++ [(s, l)]) := by
  have planned : (tally cfg (tr ++ [(s, l)])).planned = (tally cfg tr).planned := by
    rw [tally_append]
    cases l with
    | thread j ans =>
      cases at_j : s.threads[j]? with
      | none => simp [Tally.add, at_j]
      | some t =>
        rcases planned_thread cfg (tally cfg tr) s t with ⟨here, -⟩ | ⟨-, same⟩
        · exact absurd here (none j ans t rfl at_j)
        · simpa [Tally.add, at_j] using same
    | _ => rfl
  refine ⟨fun packets reread => ?_, ?_⟩
  all_goals rw [planned]
  · rcases reread.last with old | ⟨j, ans, t, is, at_j, here, -⟩
    · exact foreseen.extends_ packets old
    · exact absurd here (none j ans t is at_j)
  · exact foreseen.latest.imp id fun reread => reread.append _

theorem run_foreseen (run : Run (liveSession cfg) Unreleased tr s) : Stopped s ∨ Foreseen cfg tr := by
  refine run.invariant (I := fun tr s => Stopped s ∨ Foreseen cfg tr) (fun s _ => .inr ⟨?_, .inl rfl⟩) ?_
  · rintro packets ⟨before, v, j, ans, after, t, none, -⟩
    simp at none
  intro tr s l s' before goes_on unreleased h
  rcases goes_on with stopped | foreseen
  · exact .inl (stopped.step h)
  rcases (run_live before).2 with stopped | piped
  · exact .inl (stopped.step h)
  by_cases rereads : ∃ j ans t, l = .thread j ans ∧ s.threads[j]? = some t ∧ t.pc = .sendRecount
  · obtain ⟨j, ans, t, rfl, at_j, here⟩ := rereads
    exact .inr (foreseen.rereads piped at_j here)
  · exact .inr (foreseen.other fun j ans t is at_j here => rereads ⟨j, ans, t, is, at_j, here⟩)

/-- Whoever releases the session finds every batch that was started handed over, in the order of the `Enqueue`s. -/
theorem handed_at_release (run : Run (liveSession cfg) Unreleased tr s)
    {t : Thread} {k : Nat} (at_k : s.threads[k]? = some t) (here : t.pc = .decCas again) (one : s.IoCount = 1)
    (few : references s < 2 ^ 31) :
    Foreseen cfg tr ∧ (tally cfg tr).handed = (tally cfg tr).planned ∧ (tally cfg tr).handed <+: (tally cfg tr).enqueued := by
  obtain ⟨holds, goes_on⟩ := run_live run
  have all : refs (core s) (stages s) = 1 := by
    have := holds.congr
    rw [refs_core] at this ⊢
    unfold flag at this
    omega
  have unstopped : ¬ Stopped s := by
    -- it would hold a reference of its own
    rintro ⟨x, member, stopped⟩
    obtain ⟨j, at_j⟩ := List.mem_iff_getElem?.mp member
    have apart : j ≠ k := by
      rintro rfl
      obtain rfl : x = t := Option.some.inj (at_j.symm.trans at_k)
      rw [here] at stopped
      cases stopped
    have two := add_le_total (w := held) (stages_at at_k) (stages_at at_j) apart
    rw [here, stopped] at two
    simp only [refs, stage, held] at two all
    omega
  have foreseen := (run_foreseen run).resolve_left unstopped
  have piped := goes_on.resolve_left unstopped
  have leaving := stages_at at_k
  rw [here] at leaving
  have alone := (alone_of_one leaving all).1
  have carriers := weigh_le (s := s) (v := carrying) (w := fun pc => within (stage pc)) fun pc => by
    cases pc <;> simp [carrying, stage]
  rw [weigh_stage] at carriers
  have batched := piped.idle (by omega)
  have planned := batched.planned
  have dequeued := batched.dequeued
  simp only [restOf, batchOf, List.take_zero, List.append_nil] at planned dequeued
  refine ⟨foreseen, by rw [planned, dequeued], ?_⟩
  rw [batched.fifo, dequeued]
  exact List.prefix_append ..

/-- A session is about to be released, and a `SendAndDisconnect` that passed its guard has enqueued
its packet. What was handed to `WSASend` was handed in the order of the `Enqueue`s and once each; the packets
in front of that packet and then the packet itself are among it if and only if a `PostSend` that had passed
its tests of the disconnect before re-reads the count after the `Enqueue` and finds the packet within its batch. -/
theorem sent_before_release (run : Run (liveSession cfg) Unreleased (before ++ (u, .thread i ans) :: after) s)
    (at_i : u.threads[i]? = some ⟨.api (.sendAndDisconnect packet) sessionID, .callEnqueue⟩)
    {t : Thread} {k : Nat} (at_k : s.threads[k]? = some t) (release : t.pc = .decCas again) (last : s.IoCount = 1)
    (few : references s < 2 ^ 31) :
    let enqueued := (tally cfg (before ++ [(u, .thread i ans)])).enqueued
    let all := tally cfg (before ++ (u, .thread i ans) :: after)
    enqueued = (tally cfg before).enqueued ++ [⟨packet, sessionID⟩] ∧ all.handed <+: all.enqueued ∧
      (enqueued <+: all.handed ↔
        ∃ packets, Reread cfg (before ++ (u, .thread i ans) :: after) packets ∧ enqueued <+: packets) := by
  intro enqueued all
  have appended : enqueued = (tally cfg before).enqueued ++ [⟨packet, sessionID⟩] := by
    show (tally cfg (before ++ [(u, .thread i ans)])).enqueued = _
    rw [tally_append]
    simp [Tally.add, at_i, Tally.thread]
  obtain ⟨foreseen, handed, in_order⟩ := handed_at_release run at_k release last few
  refine ⟨appended, in_order, ?_⟩
  show enqueued <+: (tally cfg (before ++ (u, .thread i ans) :: after)).handed ↔ _
  rw [handed, appended]
  constructor
  · intro sent
    rcases foreseen.latest with none | reread
    · rw [none] at sent
      simp at sent
    · exact ⟨_, reread, sent⟩
  · rintro ⟨packets, reread, within_⟩
    exact within_.trans (foreseen.extends_ packets reread)

/-- `plain` with the two steps of `LockFreeQueue`'s `Enqueue`. -/
def counted : Config := { plain with countsLater := true }

theorem openSlot_live : openSlot.Live := ⟨openSlot_opened, rfl, rfl⟩

def NoFailure (s : Slot) (l : Label) : Prop :=
  Unreleased s l ∧ match l with
    | .recvFails _ | .sendFails _ | .thread _ .reset => False
    | _ => True

instance : Decidable (NoFailure s l) :=
  match l with
  | .recvFails _ | .sendFails _ | .thread _ .reset => inferInstanceAs (Decidable (_ ∧ False))
  | .accept _ _ _ | .call _ _ | .recvCompletes _ _ | .sendCompletes _ | .workRecv _ | .workSend _ | .workRelease _
  | .thread _ .go | .thread _ .pending | .thread _ (.atOnce _) => inferInstanceAs (Decidable (_ ∧ True))

/-- A `SendAndDisconnect` in thread 0, up to its `Enqueue`. -/
def reply : List Label := .call (.sendAndDisconnect 100) 1 :: List.replicate 6 (Label.thread 0 .go)

/-- The call returns, and then the peer closes. -/
def peerCloses : List Label :=
  List.replicate 6 (Label.thread 0 .go) ++ .recvCompletes 0 [] :: .workRecv 0 :: List.replicate 2 (Label.thread 1 .go)

theorem reply_is_not_sent : ∃ before u after s,
    Run (liveSession counted) NoFailure (before ++ (u, .thread 0 .go) :: after) s ∧
    u.threads[0]? = some ⟨.api (.sendAndDisconnect 100) 1, .callEnqueue⟩ ∧
    s.threads[1]? = some ⟨.worker, .decCas false⟩ ∧ s.IoCount = 1 ∧
    ¬ ((tally counted before).enqueued ++ [⟨100, 1⟩]) <+: (tally counted (before ++ (u, .thread 0 .go) :: after)).handed := by
  have along : Along (liveSession counted) NoFailure openSlot (reply ++ .thread 0 .go :: peerCloses) := by decide +kernel
  obtain ⟨s, reached, run⟩ := Run.along (.init openSlot_live) along
  obtain ⟨u, earlier⟩ : ∃ u, exec (liveSession counted) openSlot reply = some u :=
    Option.isSome_iff_exists.mp (by decide +kernel)
  have enqueues : (exec (liveSession counted) openSlot reply).map (fun u => u.threads[0]?) =
      some (some ⟨.api (.sendAndDisconnect 100) 1, .callEnqueue⟩) := by decide +kernel
  have releases : (exec (liveSession counted) openSlot (reply ++ .thread 0 .go :: peerCloses)).map
      (fun s => (s.threads[1]?, s.IoCount)) = some (some ⟨.worker, .decCas false⟩, 1) := by decide +kernel
  have unsent : (tally counted (trace (liveSession counted) openSlot (reply ++ .thread 0 .go :: peerCloses))).handed = [] := by
    decide +kernel
  rw [earlier] at enqueues
  rw [reached] at releases
  obtain ⟨at_one, one⟩ : s.threads[1]? = some ⟨.worker, .decCas false⟩ ∧ s.IoCount = 1 := by simpa using releases
  rw [trace_append earlier] at run unsent
  refine ⟨_, u, _, s, run, Option.some.inj enqueues, at_one, one, ?_⟩
  show ¬ _ <+: (tally counted (trace _ openSlot reply ++ trace _ u (.thread 0 .go :: peerCloses))).handed
  rw [unsent]
  simp

/-- Thread 0 has passed its tests in `PostSend` when the disconnect is registered in thread 1. -/
def lateReply : List Label := .call (.sendPacket 200) 1 :: List.replicate 10 (Label.thread 0 .go) ++
  .call (.sendAndDisconnect 100) 1 :: List.replicate 6 (Label.thread 1 .go)

/-- It takes the flag and sends both packets; the completion is handled, and the peer closes. -/
def sentWithOther : List Label := List.replicate 6 (Label.thread 1 .go) ++ List.replicate 5 (Label.thread 0 .go) ++
  .thread 0 (.atOnce []) :: List.replicate 2 (Label.thread 0 .go) ++ .workSend 0 :: List.replicate 7 (Label.thread 2 .go) ++
  .recvCompletes 0 [] :: .workRecv 0 :: List.replicate 2 (Label.thread 3 .go)

theorem late_reply_is_sent : ∃ tr s, Run (liveSession counted) Unreleased tr s ∧
    tr.map Prod.snd = lateReply ++ .thread 1 .go :: sentWithOther ∧ s.IoCount = 1 ∧
    (∃ packets, Reread counted tr packets ∧ [⟨200, 1⟩, ⟨100, 1⟩] <+: packets) ∧ (tally counted tr).handed = [⟨200, 1⟩, ⟨100, 1⟩] := by
  have along : Along (liveSession counted) Unreleased openSlot (lateReply ++ .thread 1 .go :: sentWithOther) := by
    decide +kernel
  obtain ⟨s, reached, run⟩ := Run.along (.init openSlot_live) along
  obtain ⟨u, earlier⟩ : ∃ u, exec (liveSession counted) openSlot lateReply = some u :=
    Option.isSome_iff_exists.mp (by decide +kernel)
  have enqueues : (exec (liveSession counted) openSlot lateReply).map (fun u => u.threads[1]?) =
      some (some ⟨.api (.sendAndDisconnect 100) 1, .callEnqueue⟩) := by decide +kernel
  have releases : (exec (liveSession counted) openSlot (lateReply ++ .thread 1 .go :: sentWithOther)).map
      (fun s => (s.threads[3]?, s.IoCount, references s)) = some (some ⟨.worker, .decCas false⟩, 1, 1) := by
    decide +kernel
  have before : (tally counted (trace (liveSession counted) openSlot lateReply)).enqueued = [⟨200, 1⟩] := by decide +kernel
  have sent : (tally counted (trace (liveSession counted) openSlot (lateReply ++ .thread 1 .go :: sentWithOther))).handed =
      [⟨200, 1⟩, ⟨100, 1⟩] := by decide +kernel
  rw [earlier] at enqueues
  rw [reached] at releases
  obtain ⟨at_three, one, all⟩ : s.threads[3]? = some ⟨.worker, .decCas false⟩ ∧ s.IoCount = 1 ∧ references s = 1 := by
    simpa using releases
  refine ⟨_, s, run, trace_labels reached, one, ?_, sent⟩
  rw [List.nil_append, trace_append earlier] at run ⊢
  rw [trace_append earlier] at sent
  obtain ⟨enqueued, -, sends⟩ := sent_before_release run (Option.some.inj enqueues) at_three rfl one (by omega)
  rw [enqueued, before] at sends
  exact sends.mp (by rw [trace] at sent; rw [sent]; exact List.prefix_rfl)

end WanNet.Session
