import WanNet.Session.IoCount

/-!
`PostSend` on a live session: who holds `bSendFlag`, who is on the way to it, and when a packet in
`SendQueue` is left without anybody to send it.
-/

namespace WanNet.Session
open Transition Threads ReleaseCount

variable {cfg : Config} {s s' u : Slot} {role : Role} {ans : Answer} {pc pc' : Pc} {t : Thread} {i : Nat}

/-! ### The flag -/

/-- A thread past its guard that has yet to try `InterlockedExchange(&bSendFlag, 1)`. -/
def aiming : Pc → Nat
  | .callAddRef | .callEnqueue | .callCount
  | .sendCount | .sendTestDisconnected | .sendTestRegistered | .sendTakeFlag => 1
  | _ => 0

/-- A thread in `PostSend` that won the flag. -/
def carrying : Pc → Nat
  | .sendRecount | .sendGiveBack | .sendDequeue _ _ | .wsaSend _ => 1
  | _ => 0

/-- A worker with a send completion, before it resets the flag. -/
def finishing : Pc → Nat
  | .sendDoneTake | .sendDoneDrop _ _ | .sendDoneTest | .sendDoneClearFlag => 1
  | _ => 0

/-- The flag is a token: who took it passes it to the operation, and that to the worker. -/
def holders (s : Slot) : Nat := weigh carrying s + s.sendIo.length + weigh finishing s

/-- Neither initialising nor releasing the slot, nor between the two halves of an `Enqueue`. -/
def Pc.onLive (pc : Pc) : Prop := pc.initialises = false ∧ releasing (stage pc) = 0 ∧ pc ≠ .callCount

/-! ### A live session -/

/-- A session that nobody has sent on yet, as `OnAccept` finds it. -/
structure Slot.Opened (s : Slot) : Prop where
  connected : s.bDisconnected = false ∧ s.bDisconnectRegistered = false
  unsent : s.bSendFlag = 0 ∧ s.SendQueue = [] ∧ s.SendQueueCount = 0 ∧ s.sendIo = []
  threads : ∀ t ∈ s.threads, t.pc.onLive ∧ aiming t.pc + carrying t.pc + finishing t.pc = 0

def session (cfg : Config) : System Slot Label where
  init := Slot.Opened
  step := step cfg

/-- The step registers a disconnect, or its `WSASend` fails. -/
def Pc.spoils : Pc → Answer → Bool
  | .callRegister, _ | .wsaSend _, .reset => true
  | _, _ => false

/-- The session stays live, no disconnect is registered, and no send fails. -/
def Sending (s : Slot) (l : Label) : Prop :=
  eventOf s l = none ∧ match l with
    | .accept _ _ _ | .sendFails _ => False
    | .thread i ans => ∀ t ∈ s.threads[i]?, t.pc.spoils ans = false
    | _ => True

instance : Decidable (Sending s l) :=
  match l with
  | .accept _ _ _ | .sendFails _ => inferInstanceAs (Decidable (_ ∧ False))
  | .thread i _ => inferInstanceAs (Decidable (_ ∧ ∀ t ∈ s.threads[i]?, _))
  | .call _ _ | .recvCompletes _ _ | .recvFails _ | .sendCompletes _ | .workRecv _ | .workSend _ | .workRelease _ =>
    inferInstanceAs (Decidable (_ ∧ True))

theorem spoils_false (h : pc.spoils ans = false) :
    pc ≠ .callRegister ∧ (ans = .reset → ∀ wsabuf, pc ≠ .wsaSend wsabuf) := by
  constructor
  · rintro rfl
    cases h
  · rintro rfl wsabuf rfl
    cases h

def Pc.givesBack : Pc → Bool
  | .sendGiveBack => true
  | _ => false

/-- A thread that found `SendQueue` empty after it won the flag gives it back while the queue is
still empty, or while another one has yet to try the flag. -/
def GivesBackInTime (s : Slot) : Label → Prop
  | .thread i _ => ∀ t ∈ s.threads[i]?, t.pc.givesBack = true → s.SendQueue = [] ∨ 0 < weigh aiming s
  | _ => True

instance : Decidable (GivesBackInTime s l) :=
  match l with
  | .thread i _ => inferInstanceAs (Decidable (∀ t ∈ s.threads[i]?, _))
  | .accept _ _ _ | .call _ _ | .recvCompletes _ _ | .recvFails _ | .sendCompletes _ | .sendFails _ | .workRecv _
  | .workSend _ | .workRelease _ => .isTrue trivial

structure Served (s : Slot) : Prop where
  connected : s.bDisconnected = false ∧ s.bDisconnectRegistered = false
  threads : ∀ t ∈ s.threads, t.pc.onLive
  counted : s.SendQueueCount = s.SendQueue.length
  token : s.bSendFlag = holders s ∧ holders s ≤ 1
  successful : ∀ io ∈ s.sendIo, ∀ n, io.status ≠ .done false n
  enough : ∀ t ∈ s.threads, ∀ n wsabuf, t.pc = .sendDequeue n wsabuf → n ≤ s.SendQueueCount
  served : s.SendQueue = [] ∨ s.bSendFlag = 1 ∨ 0 < weigh aiming s

theorem next_aloof (h : next cfg s role ans pc = some (s', pc')) (live : pc.onLive)
    (aloof : aiming pc + carrying pc + finishing pc = 0) (quiet : eventAt s pc = none) (unregistered : pc ≠ .callRegister) :
    s'.bDisconnected = s.bDisconnected ∧ s'.bDisconnectRegistered = s.bDisconnectRegistered ∧
      s'.bSendFlag = s.bSendFlag ∧ s'.SendQueue = s.SendQueue ∧ s'.SendQueueCount = s.SendQueueCount ∧
      (s'.sendIo = s.sendIo ∨ s'.sendIo = (cancelIo s).sendIo) ∧ pc'.onLive ∧
      carrying pc' + finishing pc' = 0 := by
  obtain ⟨noinit, norelease, -⟩ := live
  cases next_moves h with
  | acceptIncrement | initClearFlag | initID | initSocket | initAddress | initSendFlag | initKey | initDisconnected | initRegistered
  | initRecvBuffer | initDrained | initDrainWaits | initDrain | initDropRefs | initDropped | initRegisteredCount | acceptCount | onAccept =>
    cases noinit
  | releaseClose | releaseDisconnectedCount | releaseSessionCount | releasePost | releasePush => cases norelease
  | callRegister | callRegisterAndSend => exact absurd rfl unregistered
  | callCancel | recvCancel | sendCancel => exact ⟨rfl, rfl, rfl, rfl, rfl, .inr rfl, ⟨rfl, rfl, by simp⟩, rfl⟩
  | decCas again last => simp [eventAt, last] at quiet
  | decDecrement again => cases again <;> exact ⟨rfl, rfl, rfl, rfl, rfl, .inl rfl, ⟨rfl, rfl, by simp [decReturn]⟩, rfl⟩
  | releaseTest | releaseCrash => cases norelease
  | callAddRef | callEnqueueShows | callEnqueue | callCount | sendDoneTake | sendDoneDrop | sendDoneDropped | sendDoneRegistered | sendDoneTest
  | sendDoneClearFlag | sendDoneCrash | sendNothing | sendCount | sendDisconnected | sendTestDisconnected | sendRegistered
  | sendTestRegistered | sendFlagTaken | sendTakeFlag | sendRecountsNone | sendRecount | sendGiveBack | sendGiveBackCrash | sendDequeueCrash
  | sendDequeueWaits | sendDequeue | sendIncrement | wsaSend | wsaSendAtOnce | wsaSendFails => cases aloof
  | _ => exact ⟨rfl, rfl, rfl, rfl, rfl, .inl rfl, ⟨rfl, rfl, by simp⟩, rfl⟩

/-- What a thread on the sending path does to the queue and the flag. -/
structure Sends (s s' : Slot) (pc pc' : Pc) : Prop where
  connected : s'.bDisconnected = false ∧ s'.bDisconnectRegistered = false
  thread : pc'.onLive
  counted : s'.SendQueueCount = s'.SendQueue.length
  token : s'.bSendFlag + (carrying pc + s.sendIo.length + finishing pc) =
    s.bSendFlag + (carrying pc' + s'.sendIo.length + finishing pc')
  successful : ∀ io ∈ s'.sendIo, io ∈ s.sendIo ∨ ∀ n, io.status ≠ .done false n
  enough : ∀ n wsabuf, pc' = .sendDequeue n wsabuf → n ≤ s'.SendQueueCount
  dequeues : s'.SendQueueCount < s.SendQueueCount → carrying pc = 1
  served : s'.SendQueue = [] ∨ s'.bSendFlag = 1 ∨ 0 < aiming pc' ∨ (pc = .sendGiveBack ∧ s'.SendQueue = s.SendQueue)

theorem Sends.pass (connected : s.bDisconnected = false ∧ s.bDisconnectRegistered = false) (counted : s.SendQueueCount = s.SendQueue.length)
    (thread : pc'.onLive) (same : carrying pc' + finishing pc' = carrying pc + finishing pc)
    (enough : ∀ n wsabuf, pc' = .sendDequeue n wsabuf → n ≤ s.SendQueueCount)
    (served : s.SendQueue = [] ∨ s.bSendFlag = 1 ∨ 0 < aiming pc') : Sends s s pc pc' :=
  ⟨connected, thread, counted, by omega, fun _ => .inl, enough, fun less => absurd less (Nat.lt_irrefl _), served.imp_right (.imp_right .inl)⟩

theorem next_sends (h : next cfg s role ans pc = some (s', pc')) (atomic : cfg.countsLater = false) (countable : Countable cfg s)
    (path : 0 < aiming pc + carrying pc + finishing pc) (live : pc.onLive)
    (connected : s.bDisconnected = false ∧ s.bDisconnectRegistered = false)
    (counted : s.SendQueueCount = s.SendQueue.length)
    (flag : 0 < carrying pc + finishing pc → s.bSendFlag = 1) (free : s.bSendFlag ≤ 1)
    (enough : ∀ n wsabuf, pc = .sendDequeue n wsabuf → n ≤ s.SendQueueCount)
    (sound : ans = .reset → ∀ wsabuf, pc ≠ .wsaSend wsabuf) : Sends s s' pc pc' := by
  have counts := getCount_eq countable
  have kept : ∀ io ∈ s.sendIo, io ∈ s.sendIo ∨ ∀ n, io.status ≠ .done false n := fun _ => .inl
  have looks := @Sends.pass s pc pc' connected counted
  cases next_moves h with
  | callAddRef | sendCount | sendTestDisconnected | sendTestRegistered =>
    exact looks ⟨rfl, rfl, by simp⟩ rfl (by simp) (.inr (.inr Nat.one_pos))
  | callEnqueueShows _ _ _ later => cases atomic.symm.trans later
  | callEnqueue =>
    exact ⟨connected, ⟨rfl, rfl, by simp⟩, by simp [counted], rfl, kept, by simp, by simp, .inr (.inr (.inl Nat.one_pos))⟩
  | callCount => exact absurd rfl live.2.2
  | sendNothing none =>
    have empty : s.SendQueue = [] := List.length_eq_zero_iff.mp (counted.symm.trans (counts.symm.trans none))
    exact looks ⟨rfl, rfl, by simp⟩ rfl (by simp) (.inl empty)
  | sendDisconnected disconnected => cases connected.1.symm.trans disconnected
  | sendRegistered registered | sendDoneRegistered registered => cases connected.2.symm.trans registered
  | sendFlagTaken taken =>
    refine ⟨connected, ⟨rfl, rfl, by simp⟩, counted, ?_, kept, by simp, by simp, .inr (.inl rfl)⟩
    have : s.bSendFlag = 1 := by omega
    simp [carrying, finishing, this]
  | sendTakeFlag untaken =>
    refine ⟨connected, ⟨rfl, rfl, by simp⟩, counted, ?_, kept, by simp, by simp, .inr (.inl rfl)⟩
    simp [carrying, finishing, untaken, Nat.add_comm]
  | sendRecountsNone | sendDoneDrop | sendDoneDropped | sendDoneTest =>
    exact looks ⟨rfl, rfl, by simp⟩ rfl (by simp) (.inr (.inl (flag Nat.one_pos)))
  | sendRecount =>
    refine looks ⟨rfl, rfl, by simp⟩ rfl (fun n wsabuf is => ?_) (.inr (.inl (flag Nat.one_pos)))
    cases is
    exact getCount_le cfg s.SendQueueCount
  | sendGiveBack taken =>
    exact ⟨connected, ⟨rfl, rfl, by simp⟩, counted, by simp [carrying, finishing, taken, Nat.add_comm], kept, by simp, by simp,
      .inr (.inr (.inr ⟨rfl, rfl⟩))⟩
  | sendGiveBackCrash crash | sendDoneCrash crash => exact absurd (flag Nat.one_pos) crash
  | sendDequeueCrash n wsabuf more none =>
    have := enough n wsabuf rfl
    omega
  | sendDequeueWaits n wsabuf more left empty =>
    rw [empty, List.length_nil] at counted
    exact absurd (counts.trans counted) left
  | sendDequeue n wsabuf packet rest more left queue =>
    have enough := enough n wsabuf rfl
    rw [queue, List.length_cons] at counted
    refine ⟨connected, ⟨rfl, rfl, by simp⟩, by simp only; omega, rfl, kept, fun m w is => ?_, fun _ => rfl, .inr (.inl (flag Nat.one_pos))⟩
    cases is
    simp only
    omega
  | sendIncrement | sendDoneTake =>
    exact ⟨connected, ⟨rfl, rfl, by simp⟩, counted, rfl, kept, by simp, by simp, .inr (.inl (flag Nat.one_pos))⟩
  | wsaSend | wsaSendAtOnce =>
    refine ⟨connected, ⟨rfl, rfl, by simp⟩, counted, ?_, fun io member => ?_, by simp, by simp, .inr (.inl (flag Nat.one_pos))⟩
    · simp [carrying, finishing, Nat.add_comm]
    · rcases List.mem_append.mp member with old | new
      · exact .inl old
      · simp [List.mem_singleton.mp new]
  | wsaSendFails wsabuf reset => exact absurd rfl (sound reset wsabuf)
  | sendDoneClearFlag taken =>
    exact ⟨connected, ⟨rfl, rfl, by simp⟩, counted, by simp [carrying, finishing, taken, Nat.add_comm], kept, by simp, by simp,
      .inr (.inr (.inl Nat.one_pos))⟩
  | _ => exact absurd path (Nat.lt_irrefl 0)

theorem next_flag (h : next cfg s role ans pc = some (s', pc')) (free : s.bSendFlag ≤ 1) : s'.bSendFlag ≤ 1 := by
  cases next_moves h with
  | initSendFlag | sendDoneClearFlag | sendDoneCrash | sendGiveBack | sendGiveBackCrash => exact Nat.zero_le _
  | sendFlagTaken | sendTakeFlag => exact Nat.le_refl _
  | _ => exact free

theorem Served.init (opened : s.Opened) : Served s := by
  obtain ⟨flag, queue, count, sendIo⟩ := opened.unsent
  have none (w : Pc → Nat) (zero : ∀ t ∈ s.threads, w t.pc = 0) : weigh w s = 0 := total_eq_zero.mpr zero
  have holding : holders s = 0 := by
    unfold holders
    rw [none carrying fun t ht => by have := (opened.threads t ht).2; omega,
      none finishing fun t ht => by have := (opened.threads t ht).2; omega, sendIo]
    rfl
  refine ⟨opened.connected, fun t ht => (opened.threads t ht).1, by simp [queue, count], by omega, by simp [sendIo], ?_,
    .inl queue⟩
  intro t ht n wsabuf is
  have := (opened.threads t ht).2
  simp [is, carrying] at this

/-- Outside the threads, a session moves its operations along. -/
theorem Served.outside (served : Served s) (same : s.Untouched s') (threads : s'.threads = s.threads ++ new)
    (live : ∀ t ∈ new, t.pc.onLive) (idle : ∀ t ∈ new, carrying t.pc = 0)
    (token : s'.sendIo.length + total (fun t => finishing t.pc) new = s.sendIo.length)
    (successful : ∀ io ∈ s'.sendIo, ∀ n, io.status ≠ .done false n) : Served s' := by
  have carriers : weigh carrying s' = weigh carrying s := by
    rw [weigh_join threads, total_eq_zero.mpr idle]
    rfl
  have holding : holders s' = holders s := by
    unfold holders
    rw [carriers, weigh_join threads]
    omega
  have split {t : Thread} (h : t ∈ s'.threads) : t ∈ s.threads ∨ t ∈ new := by
    rw [threads] at h
    exact List.mem_append.mp h
  refine ⟨?_, ?_, ?_, ?_, successful, ?_, ?_⟩
  · rw [same.disconnected, same.registered]
    exact served.connected
  · intro t ht
    exact (split ht).elim (served.threads t) (live t)
  · rw [same.queue.1, same.queue.2]
    exact served.counted
  · rw [same.flag, holding]
    exact served.token
  · intro t ht n wsabuf is
    rw [same.queue.2]
    rcases split ht with old | joined
    · exact served.enough t old n wsabuf is
    · have := idle t joined
      simp [is, carrying] at this
  · rw [same.queue.1, same.flag, weigh_join threads]
    rcases served.served with empty | taken | aimed
    · exact .inl empty
    · exact .inr (.inl taken)
    · exact .inr (.inr (by omega))

theorem Served.step_outside (served : Served s) (sending : Sending s l) (h : step cfg s l = some s')
    (outside : ∀ i ans, l ≠ .thread i ans) : Served s' := by
  have same := (Session.step_outside h outside).1
  cases l with
  | accept count sock address => exact sending.2.elim
  | sendFails j => exact sending.2.elim
  | call call sessionID =>
    obtain rfl := Option.some.inj h
    exact served.outside same rfl (by simp [Pc.onLive, Pc.initialises, stage]) (by simp [carrying]) rfl served.successful
  | recvCompletes j data =>
    obtain ⟨io, -, -, rfl⟩ := step_recvCompletes h
    exact served.outside same (List.append_nil _).symm (by simp) (by simp) rfl served.successful
  | recvFails j =>
    obtain ⟨io, -, rfl⟩ := step_recvFails h
    exact served.outside same (List.append_nil _).symm (by simp) (by simp) rfl served.successful
  | sendCompletes j =>
    obtain ⟨io, -, rfl⟩ := step_sendCompletes h
    refine served.outside same (List.append_nil _).symm (by simp) (by simp) (by simp) fun io member => ?_
    rcases List.mem_or_eq_of_mem_set member with old | rfl
    · exact served.successful io old
    · simp
  | workRecv j =>
    obtain ⟨io, success, n, at_j, -, rfl⟩ := step_workRecv h
    refine served.outside same rfl ?_ ?_ ?_ served.successful
    · cases success <;> simp [Pc.onLive, Pc.initialises, stage]
    · cases success <;> simp [carrying]
    · cases success <;> simp [finishing, total]
  | workSend j =>
    obtain ⟨io, success, n, at_j, status, rfl⟩ := step_workSend h
    have shorter := length_eraseIdx_add_one at_j
    cases success with
    | false => exact absurd status (served.successful io (List.mem_of_getElem? at_j) n)
    | true =>
      refine served.outside same rfl ?_ ?_ ?_ ?_
      · simp [Pc.onLive, Pc.initialises, stage]
      · simp [carrying]
      · simpa [finishing, total] using shorter
      · intro io member
        exact served.successful io (List.mem_of_mem_eraseIdx member)
  | workRelease j =>
    obtain ⟨sessionID, -, rfl⟩ := step_workRelease h
    exact served.outside same rfl (by simp [Pc.onLive, Pc.initialises, stage]) (by simp [carrying]) rfl served.successful
  | thread i ans => exact absurd rfl (outside i ans)

theorem cancel_successful (successful : ∀ io ∈ s.sendIo, ∀ n, io.status ≠ .done false n) :
    ∀ io ∈ (cancelIo s).sendIo, ∀ n, io.status ≠ .done false n := by
  intro io member n
  obtain ⟨io, old, rfl⟩ := List.mem_map.mp member
  have := successful io old n
  split
  · cases status : io.status with
    | pending => simp [IoStatus.cancel]
    | done success m => simpa [IoStatus.cancel, status] using this
  · exact this

theorem Served.step_aloof (served : Served s) (at_i : s.threads[i]? = some t)
    (taken : next cfg s t.role ans t.pc = some (u, pc')) (aloof : aiming t.pc + carrying t.pc + finishing t.pc = 0)
    (quiet : eventAt s t.pc = none) (unregistered : t.pc ≠ .callRegister) : Served (s.moved u i t pc') := by
  have member := List.mem_of_getElem? at_i
  obtain ⟨disconnected, registered, flag, queue, count, sendIo, live, none⟩ :=
    next_aloof taken (served.threads t member) aloof quiet unregistered
  have carriers := weigh_moved carrying u pc' at_i
  have finishers := weigh_moved finishing u pc' at_i
  have aimers := weigh_moved aiming u pc' at_i
  have length : u.sendIo.length = s.sendIo.length := by
    rcases sendIo with same | cancelled
    · rw [same]
    · simp [cancelled, cancelIo]
  have holding : holders (s.moved u i t pc') = holders s := by
    unfold holders
    show _ + u.sendIo.length + _ = _
    omega
  refine ⟨?_, ?_, ?_, ?_, ?_, ?_, ?_⟩
  · exact ⟨disconnected.trans served.connected.1, registered.trans served.connected.2⟩
  · intro x hx
    rcases mem_moved hx with old | rfl
    · exact served.threads x old
    · exact live
  · show u.SendQueueCount = u.SendQueue.length
    rw [count, queue]
    exact served.counted
  · rw [holding]
    exact ⟨flag.trans served.token.1, served.token.2⟩
  · show ∀ io ∈ u.sendIo, _
    rcases sendIo with same | cancelled
    · rw [same]
      exact served.successful
    · rw [cancelled]
      exact cancel_successful served.successful
  · intro x hx n wsabuf is
    show n ≤ u.SendQueueCount
    rw [count]
    rcases mem_moved hx with old | rfl
    · exact served.enough x old n wsabuf is
    · simp only at is
      simp [is, carrying] at none
  · show u.SendQueue = [] ∨ u.bSendFlag = 1 ∨ _
    rw [queue, flag]
    rcases served.served with empty | taken | aimed
    · exact .inl empty
    · exact .inr (.inl taken)
    · exact .inr (.inr (by omega))

theorem Served.step_path (served : Served s) (at_i : s.threads[i]? = some t)
    (taken : next cfg s t.role ans t.pc = some (u, pc')) (atomic : cfg.countsLater = false) (countable : Countable cfg s)
    (path : 0 < aiming t.pc + carrying t.pc + finishing t.pc)
    (sound : ans = .reset → ∀ wsabuf, t.pc ≠ .wsaSend wsabuf)
    (in_time : t.pc.givesBack = true → s.SendQueue = [] ∨ 0 < weigh aiming s) : Served (s.moved u i t pc') := by
  have member := List.mem_of_getElem? at_i
  have carriers := weigh_moved carrying u pc' at_i
  have finishers := weigh_moved finishing u pc' at_i
  have aimers := weigh_moved aiming u pc' at_i
  have carrier := le_weigh (w := carrying) member
  have finisher := le_weigh (w := finishing) member
  have aimer := le_weigh (w := aiming) member
  obtain ⟨flag, one⟩ := served.token
  have sends := next_sends taken atomic countable path (served.threads t member) served.connected served.counted
    (fun holds => by unfold holders at flag one; omega) (by omega) (served.enough t member) sound
  have free := next_flag taken (by omega)
  have holding : u.bSendFlag = holders (s.moved u i t pc') := by
    have := sends.token
    unfold holders at flag ⊢
    show _ = _ + u.sendIo.length + _
    omega
  refine ⟨sends.connected, ?_, sends.counted, ⟨holding, by omega⟩, ?_, ?_, ?_⟩
  · intro x hx
    rcases mem_moved hx with old | rfl
    · exact served.threads x old
    · exact sends.thread
  · intro io hio
    exact (sends.successful io hio).elim (served.successful io) id
  · intro x hx n wsabuf is
    show n ≤ u.SendQueueCount
    obtain ⟨j, at_j⟩ := List.mem_iff_getElem?.mp hx
    by_cases here : j = i
    · obtain rfl : x = ⟨t.role, pc'⟩ := by
        rw [here, List.getElem?_set_self (List.getElem?_eq_some_iff.mp at_i).1] at at_j
        exact (Option.some.inj at_j).symm
      exact sends.enough n wsabuf is
    · -- only the holder of the flag dequeues, and there is no other
      rw [List.getElem?_set_ne (Ne.symm here)] at at_j
      have enough := served.enough x (List.mem_of_getElem? at_j) n wsabuf is
      have two := add_le_total (w := fun t : Thread => carrying t.pc) at_i at_j here
      have other : carrying x.pc = 1 := by rw [is]; rfl
      have dequeues := sends.dequeues
      unfold holders weigh at one
      omega
  · show u.SendQueue = [] ∨ u.bSendFlag = 1 ∨ _
    rcases sends.served with empty | taken | aimed | ⟨back, same⟩
    · exact .inl empty
    · exact .inr (.inl taken)
    · exact .inr (.inr (by omega))
    · rcases in_time (by rw [back]; rfl) with empty | others
      · exact .inl (same.trans empty)
      · have : aiming t.pc = 0 := by rw [back]; rfl
        exact .inr (.inr (by omega))

theorem Served.step (served : Served s) (atomic : cfg.countsLater = false) (countable : Countable cfg s) (sending : Sending s l)
    (in_time : GivesBackInTime s l) (h : step cfg s l = some s') : Served s' := by
  by_cases threaded : ∃ i ans, l = .thread i ans
  · obtain ⟨i, ans, rfl⟩ := threaded
    obtain ⟨t, u, pc', at_i, taken, rfl⟩ := step_thread h
    obtain ⟨quiet, sound⟩ := sending
    have quiet : eventAt s t.pc = none := by simpa [eventOf, at_i] using quiet
    have sound := spoils_false (sound t at_i)
    by_cases path : 0 < aiming t.pc + carrying t.pc + finishing t.pc
    · exact served.step_path at_i taken atomic countable path sound.2 (in_time t at_i)
    · exact served.step_aloof at_i taken (by omega) quiet sound.1
  · exact served.step_outside sending h fun i ans is => threaded ⟨i, ans, is⟩

/-- No thread is inside `SendPacket`, `PostSend` or the completion handler. -/
def Quiescent (s : Slot) : Prop :=
  ∀ t ∈ s.threads, (∀ packet sessionID, t.role = .api (.sendPacket packet) sessionID → t.pc = .finished) ∧
    aiming t.pc + carrying t.pc + finishing t.pc = 0

/-- As long as every give-back of the flag is in time, a quiet session with packets in `SendQueue`
has a send under way. -/
theorem queue_is_served (atomic : cfg.countsLater = false) (exact_count : cfg.countWraps = false)
    (run : Run (session cfg) (fun s l => Sending s l ∧ GivesBackInTime s l) tr s)
    (quiescent : Quiescent s) (waiting : s.SendQueue ≠ []) : s.bSendFlag = 1 ∧ s.sendIo ≠ [] := by
  have served : Served s := run.invariant_state (fun _ => Served.init)
    fun _ _ _ served ⟨sending, in_time⟩ h => served.step atomic (countable_of_exact exact_count) sending in_time h
  have none (w : Pc → Nat) (zero : ∀ t ∈ s.threads, w t.pc = 0) : weigh w s = 0 := total_eq_zero.mpr zero
  have aimers := none aiming fun t ht => by have := (quiescent t ht).2; omega
  have carriers := none carrying fun t ht => by have := (quiescent t ht).2; omega
  have finishers := none finishing fun t ht => by have := (quiescent t ht).2; omega
  have flag : s.bSendFlag = 1 := by
    rcases served.served with empty | taken | aimed
    · exact absurd empty waiting
    · exact taken
    · omega
  refine ⟨flag, fun idle => ?_⟩
  have token := served.token.1
  unfold holders at token
  rw [idle] at token
  simp only [List.length_nil] at token
  omega

def openSlot : Slot := { unusedSlot with
  ID := 1, Socket := 7, IoCount := 1, bDisconnected := false, recvIo := [⟨7, 0, 8192, .pending false⟩]
  unusedKeys := 0, inits := 1, accepted := 1, acceptedSocket := 7, issued := [1] }

theorem openSlot_opened : openSlot.Opened := ⟨⟨rfl, rfl⟩, ⟨rfl, rfl, rfl, rfl⟩, nofun⟩

def idealQueue : Config := { plain with countWraps := false }

/-- Thread 0 stops before its exchange, while thread 1 sends both packets and worker 2 completes the
send; thread 0 wins the flag, finds the queue empty and stops; thread 3 enqueues and loses the flag;
thread 0 gives it back. -/
def lateWinner : List Label :=
  .call (.sendPacket 100) 1 :: List.replicate 9 (Label.thread 0 .go) ++
    .call (.sendPacket 200) 1 :: List.replicate 14 (Label.thread 1 .go) ++
    .thread 1 .pending :: List.replicate 3 (Label.thread 1 .go) ++
    .sendCompletes 0 :: .workSend 0 :: List.replicate 9 (Label.thread 2 .go) ++
    List.replicate 2 (Label.thread 0 .go) ++
    .call (.sendPacket 300) 1 :: List.replicate 12 (Label.thread 3 .go) ++
    List.replicate 3 (Label.thread 0 .go)

theorem quiescent_of_finished (done : ∀ t ∈ s.threads, t.pc = .finished) : Quiescent s := by
  intro t ht
  rw [done t ht]
  exact ⟨fun _ _ _ => rfl, rfl⟩

theorem late_winner_strands_packet : ∃ tr s, Run (session idealQueue) Sending tr s ∧
    Quiescent s ∧ s.SendQueue ≠ [] ∧ ¬ (s.bSendFlag = 1 ∧ s.sendIo ≠ []) := by
  have along : Along (session idealQueue) Sending openSlot lateWinner := by decide +kernel
  obtain ⟨s, reached, run⟩ := Run.along (.init openSlot_opened) along
  have facts : (exec (session idealQueue) openSlot lateWinner).map
      (fun s => (s.bSendFlag, s.SendQueue, decide (∀ t ∈ s.threads, t.pc = .finished))) =
      some (0, [⟨300, 1⟩], true) := by decide +kernel
  rw [reached] at facts
  obtain ⟨flag, queue, done⟩ : s.bSendFlag = 0 ∧ s.SendQueue = _ ∧ ∀ t ∈ s.threads, t.pc = .finished := by
    simpa only [Option.map_some, Option.some.injEq, Prod.mk.injEq, decide_eq_true_eq] using facts
  exact ⟨_, s, run, quiescent_of_finished done, by simp [queue], by simp [flag]⟩

/-- Thread 0 gives the flag back as above, but while the queue is still empty; thread 3 then sends, and thread 4
enqueues and loses the flag to that send. -/
def winnerInTime : List Label :=
  .call (.sendPacket 100) 1 :: List.replicate 9 (Label.thread 0 .go) ++
    .call (.sendPacket 200) 1 :: List.replicate 14 (Label.thread 1 .go) ++
    .thread 1 .pending :: List.replicate 3 (Label.thread 1 .go) ++
    .sendCompletes 0 :: .workSend 0 :: List.replicate 9 (Label.thread 2 .go) ++
    List.replicate 5 (Label.thread 0 .go) ++
    .call (.sendPacket 300) 1 :: List.replicate 13 (Label.thread 3 .go) ++
    .thread 3 .pending :: List.replicate 3 (Label.thread 3 .go) ++
    .call (.sendPacket 400) 1 :: List.replicate 12 (Label.thread 4 .go)

theorem queue_waits_for_send_under_way : ∃ s, exec (session idealQueue) openSlot winnerInTime = some s ∧
    s.SendQueue = [⟨400, 1⟩] ∧ s.bSendFlag = 1 ∧ s.sendIo ≠ [] := by
  have along : Along (session idealQueue) (fun s l => Sending s l ∧ GivesBackInTime s l) openSlot winnerInTime := by
    decide +kernel
  obtain ⟨s, reached, run⟩ := Run.along (.init openSlot_opened) along
  have facts : (exec (session idealQueue) openSlot winnerInTime).map
      (fun s => (s.SendQueue, decide (∀ t ∈ s.threads, t.pc = .finished))) = some ([⟨400, 1⟩], true) := by decide +kernel
  rw [reached] at facts
  obtain ⟨queue, done⟩ : s.SendQueue = _ ∧ ∀ t ∈ s.threads, t.pc = .finished := by
    simpa only [Option.map_some, Option.some.injEq, Prod.mk.injEq, decide_eq_true_eq] using facts
  exact ⟨s, reached, queue, queue_is_served rfl rfl run (quiescent_of_finished done) (by simp [queue])⟩

end WanNet.Session
