import WanNet.Session.Separation

/-!
`RegisteredPackets` over any number of sessions of a slot: who may write it, what is in it when a
`PostSend` starts to register, and what every `WSASend` takes from it.
-/

namespace WanNet.Session
open Transition Threads ReleaseCount

variable {cfg : Config} {s s' u : Slot} {role : Role} {ans : Answer} {pc pc' : Pc} {t : Thread} {i : Nat}

def registered (s : Slot) : List Queued := (List.range s.RegisteredPacketCount).map s.RegisteredPackets

theorem registered_nil (none : registered s = []) : s.RegisteredPacketCount = 0 := by
  simpa [registered] using none

theorem registered_length : (registered s).length = s.RegisteredPacketCount := by simp [registered]

/-- The accept thread before `Init` has reset `bSendFlag`, and before it has emptied `RegisteredPackets`. -/
def unflagged : Pc → Nat
  | .acceptIncrement | .initClearFlag | .initID | .initSocket | .initAddress | .initSendFlag => 1
  | _ => 0

def unregistered : Pc → Nat
  | .initKey | .initDisconnected | .initRegistered | .initRecvBuffer | .initDrain | .initDropRefs _
  | .initRegisteredCount => 1
  | pc => unflagged pc

/-- What a thread knows about the registered packets. -/
def Registers (s : Slot) : Pc → Prop
  | .sendRecount | .sendGiveBack | .sendDoneTest | .sendDoneClearFlag => registered s = []
  | .sendDoneDrop count _ => registered s = [] ∧ count ≤ maxWsaBufCount
  | .sendDoneTake => s.RegisteredPacketCount ≤ maxWsaBufCount
  | .sendDequeue sendCount wsabuf => registered s = wsabuf ∧ wsabuf.length ≤ maxWsaBufCount ∧
      restOf (.sendDequeue sendCount wsabuf) ≤ s.SendQueueCount
  | .wsaSend wsabuf => registered s = wsabuf ∧ wsabuf.length ≤ maxWsaBufCount
  | _ => True

theorem unflagged_le (pc : Pc) : unflagged pc ≤ unregistered pc := by
  cases pc <;> simp [unflagged, unregistered]

theorem unregistered_le (pc : Pc) : unregistered pc ≤ initialising pc := by
  cases pc <;> simp [unflagged, unregistered, initialising, Pc.initialises]

theorem holding_le_acting (pc : Pc) : carrying pc + finishing pc ≤ acting pc := by
  cases pc <;> simp [carrying, finishing, acting, Pc.initialises, stage]

theorem holding_le_one (pc : Pc) : carrying pc + finishing pc ≤ 1 := by
  cases pc <;> simp [carrying, finishing]

theorem registered_concat (packet : Queued) (h : u.RegisteredPacketCount = s.RegisteredPacketCount + 1)
    (entries : u.RegisteredPackets = fun i => if i = s.RegisteredPacketCount then packet else s.RegisteredPackets i) :
    registered u = registered s ++ [packet] := by
  unfold registered
  rw [h, entries, List.range_succ, List.map_append]
  congr 1
  · refine List.map_congr_left fun k hk => ?_
    have := List.mem_range.mp hk
    rw [if_neg (by omega)]
  · simp

/-- Who does not hold the flag leaves the registered packets alone, and only winning it makes a holder. -/
theorem next_aside_of_flag (h : next cfg s role ans pc = some (s', pc')) (noinit : pc.initialises = false)
    (aside : carrying pc + finishing pc = 0) :
    registered s' = registered s ∧ s.SendQueueCount ≤ s'.SendQueueCount ∧ s'.RegisteredPacketCount = s.RegisteredPacketCount ∧
      (s'.bSendFlag = s.bSendFlag ∨ s'.bSendFlag = 1) ∧
      (carrying pc' + finishing pc' = 0 ∨ s.bSendFlag = 0 ∧ 0 < acting pc ∧ pc' = .sendRecount) := by
  cases next_moves h with
  | callEnqueue | callCount => exact ⟨rfl, Nat.le_succ _, rfl, .inl rfl, .inl rfl⟩
  | sendFlagTaken => exact ⟨rfl, Nat.le_refl _, rfl, .inr rfl, .inl rfl⟩
  | sendTakeFlag flag => exact ⟨rfl, Nat.le_refl _, rfl, .inr rfl, .inr ⟨flag, Nat.one_pos, rfl⟩⟩
  | decDecrement again | releasePush again => cases again <;> exact ⟨rfl, Nat.le_refl _, rfl, .inl rfl, .inl rfl⟩
  | _ =>
    first
      | exact ⟨rfl, Nat.le_refl _, rfl, .inl rfl, .inl rfl⟩
      | cases noinit; done
      | cases aside

/-- What the holder of the flag does with the registered packets. -/
structure Handles (s s' : Slot) (pc' : Pc) : Prop where
  registers : Registers s' pc'
  idle : s'.bSendFlag = 0 → registered s' = []
  sent : ∀ io ∈ s'.sendIo, registered s' = io.packets ∧ io.packets.length ≤ maxWsaBufCount
  fits : s.RegisteredPacketCount ≤ maxWsaBufCount → s'.RegisteredPacketCount ≤ maxWsaBufCount

theorem next_holder (h : next cfg s role ans pc = some (s', pc')) (holds : carrying pc + finishing pc = 1)
    (flag : s.bSendFlag = 1) (alone : s.sendIo = []) (registers : Registers s pc)
    (linked : s.SendQueueCount ≤ s.SendQueue.length) : Handles s s' pc' := by
  cases next_moves h with
  | sendDoneTake => exact ⟨⟨rfl, registers⟩, fun _ => rfl, by simp [alone], fun _ => Nat.zero_le _⟩
  | sendDoneDrop => exact ⟨registers, fun _ => registers.1, by simp [alone], id⟩
  | sendDoneDropped => exact ⟨registers.1, fun _ => registers.1, by simp [alone], id⟩
  | sendDoneRegistered => exact ⟨trivial, fun _ => registers, by simp [alone], id⟩
  | sendDoneTest => exact ⟨registers, fun _ => registers, by simp [alone], id⟩
  | sendDoneClearFlag | sendGiveBack => exact ⟨trivial, fun _ => registers, by simp [alone], id⟩
  | sendDoneCrash clear | sendGiveBackCrash clear => exact absurd flag clear
  | sendRecountsNone => exact ⟨registers, fun _ => registers, by simp [alone], id⟩
  | sendRecount =>
    exact ⟨⟨registers, Nat.zero_le _, Nat.le_trans (Nat.min_le_left _ _) (getCount_le cfg s.SendQueueCount)⟩, fun _ => registers, by simp [alone], id⟩
  | sendDequeueCrash =>
    exact ⟨trivial, fun free => absurd (flag.symm.trans free) Nat.one_ne_zero, by simp [alone], id⟩
  | sendDequeueWaits n wsabuf more left empty =>
    have := positive_of_getCount left
    rw [empty, List.length_nil] at linked
    omega
  | sendDequeue n wsabuf packet queue more left is =>
    obtain ⟨are, fits, enough⟩ := registers
    have count : s.RegisteredPacketCount = wsabuf.length := by rw [← registered_length, are]
    have appended := registered_concat (s := s) (u := { s with
      SendQueue := queue
      SendQueueCount := s.SendQueueCount - 1
      RegisteredPackets := fun i => if i = s.RegisteredPacketCount then packet else s.RegisteredPackets i
      RegisteredPacketCount := s.RegisteredPacketCount + 1 }) packet rfl rfl
    rw [are] at appended
    refine ⟨⟨appended, ?_, ?_⟩, fun free => ?_, by simp [alone], fun _ => ?_⟩
    · rw [List.length_append, List.length_singleton]
      omega
    · rw [restOf_succ more packet] at enough
      simp only
      omega
    · exact absurd (flag.symm.trans free) Nat.one_ne_zero
    · simp only
      omega
  | sendIncrement =>
    obtain ⟨are, fits, -⟩ := registers
    exact ⟨⟨are, fits⟩, fun free => absurd (flag.symm.trans free) Nat.one_ne_zero, by simp [alone], id⟩
  | wsaSend wsabuf | wsaSendAtOnce wsabuf =>
    refine ⟨trivial, fun free => absurd (flag.symm.trans free) Nat.one_ne_zero, fun io member => ?_, id⟩
    obtain rfl : io = _ := by simpa [alone] using member
    exact registers
  | wsaSendFails =>
    exact ⟨trivial, fun free => absurd (flag.symm.trans free) Nat.one_ne_zero, by simp [alone], id⟩
  | _ => cases holds

theorem next_initialiser (h : next cfg s role ans pc = some (s', pc')) (init : pc.initialises = true) :
    s'.sendIo = s.sendIo ∧ Registers s' pc' ∧ carrying pc' + finishing pc' = 0 ∧
      s'.RegisteredPacketCount ≤ s.RegisteredPacketCount ∧
      unflagged pc' ≤ unflagged pc ∧
      (unflagged pc = unflagged pc' ∧ s'.bSendFlag = s.bSendFlag ∨ s'.bSendFlag = 0 ∧ unregistered pc' = 1) ∧
      unregistered pc' ≤ unregistered pc ∧ (unregistered pc = unregistered pc' ∧ registered s' = registered s ∨ registered s' = []) ∧
      (stage pc = .reviving true → unflagged pc' = 1 ∧ unregistered pc' = 1) := by
  cases next_moves h with
  | acceptIncrement | initClearFlag | initID | initSocket | initAddress | initSendFlag | initKey | initDisconnected | initRegistered
  | initRecvBuffer | initDrained | initDrainWaits | initDrain | initDropRefs | initDropped | initRegisteredCount | acceptCount
  | onAccept =>
    simp [Registers, carrying, finishing, unflagged, unregistered, stage, registered]
  | _ => cases init

theorem next_aside_sent (h : next cfg s role ans pc = some (s', pc')) (aside : carrying pc = 0) :
    ∀ io ∈ s'.sendIo, ∃ old ∈ s.sendIo, io.packets = old.packets := by
  intro io member
  cases next_moves h with
  | callCancel | recvCancel | sendCancel =>
    obtain ⟨old, had, rfl⟩ := List.mem_map.mp member
    exact ⟨old, had, by split <;> rfl⟩
  | wsaSend | wsaSendAtOnce => cases aside
  | _ => exact ⟨io, member, rfl⟩

/-- The assertions on `bSendFlag` and on the result of `TryDequeue`, and the test of `TryClosesocket`. -/
theorem next_unharmed (h : next cfg s role ans pc = some (s', pc')) (countable : Countable cfg s)
    (flag : 0 < carrying pc + finishing pc → s.bSendFlag = 1) (registers : Registers s pc)
    (closing : ∀ again, pc = .releaseTest again → s.bDisconnected = false) : ∀ refs, pc' ≠ .crashed refs := by
  intro refs
  cases next_moves h with
  | sendDoneCrash clear | sendGiveBackCrash clear => exact absurd (flag Nat.one_pos) clear
  | sendDequeueCrash n wsabuf more none =>
    obtain ⟨-, -, enough⟩ := registers
    rw [restOf_succ more ⟨0, 0⟩] at enough
    rw [getCount_eq countable] at none
    omega
  | releaseCrash again disconnected => cases (closing again rfl).symm.trans disconnected
  | decDecrement again | releasePush again => cases again <;> exact fun crash => by cases crash
  | _ => exact fun crash => by cases crash

theorem Registers.of_aside (aside : carrying pc + finishing pc = 0) : Registers s pc := by
  cases pc
  all_goals first
    | exact trivial
    | simp [carrying, finishing] at aside

theorem Registers.mono (registers : Registers s pc) (same : registered u = registered s)
    (count : u.RegisteredPacketCount = s.RegisteredPacketCount) (grows : s.SendQueueCount ≤ u.SendQueueCount) :
    Registers u pc := by
  cases pc
  all_goals first
    | exact trivial
    | exact same.trans registers
    | exact ⟨same.trans registers.1, registers.2⟩
    | exact ⟨same.trans registers.1, registers.2.1, Nat.le_trans registers.2.2 grows⟩
    | exact Nat.le_trans (Nat.le_of_eq count) registers

/-- The flag goes from the thread that won it to the operation and to the worker that handles its
completion; without a holder it may stay set, and only when it is reset are no packets registered. -/
structure Registration (s : Slot) : Prop where
  token : holders s ≤ s.bSendFlag ∧ holders s ≤ 1
  flag : (core s).live = 1 → weigh unflagged s = 0 → s.bSendFlag ≤ 1
  idle : (core s).live = 1 → weigh unregistered s = 0 → s.bSendFlag = 0 → registered s = []
  threads : ∀ t ∈ s.threads, Registers s t.pc
  sent : ∀ io ∈ s.sendIo, registered s = io.packets ∧ io.packets.length ≤ maxWsaBufCount

theorem Registration.init (fresh : s.Fresh) : Registration s := by
  obtain ⟨threads, -, sendIo, -⟩ := fresh.idle
  have dead (live : (core s).live = 1) : False := by
    have used : 0 < s.inits := (Core.live_eq_one.mp live).2
    have := fresh.unused.1
    omega
  refine ⟨?_, fun live => (dead live).elim, fun live => (dead live).elim, by simp [threads], by simp [sendIo]⟩
  simp [holders, weigh, threads, sendIo]

/-- What a session that is worked on knows of its flag. -/
theorem Registration.working (reg : Registration s) (id : Identified cfg s) (counts : Counts cfg s) (member : t ∈ s.threads)
    (acts : 0 < acting t.pc) : s.bSendFlag ≤ 1 ∧ (s.bSendFlag = 0 → registered s = []) := by
  obtain ⟨live, nobody, -⟩ := id.working counts member acts
  have unregs := weigh_le (s := s) unregistered_le
  have unflags := weigh_le (s := s) unflagged_le
  exact ⟨reg.flag live (by omega), reg.idle live (by omega)⟩

theorem Registration.step_aside (reg : Registration s) (id : Identified cfg s) (counts : Counts cfg s)
    (at_i : s.threads[i]? = some t) (taken : next cfg s t.role ans t.pc = some (u, pc')) (noinit : t.pc.initialises = false)
    (aside : carrying t.pc + finishing t.pc = 0) (alive : (core u).live = 1 → (core s).live = 1) :
    Registration (s.moved u i t pc') := by
  have member := List.mem_of_getElem? at_i
  obtain ⟨same, grows, count, flag, moves⟩ := next_aside_of_flag taken noinit aside
  have same : registered (s.moved u i t pc') = registered s := same
  have token := next_token taken noinit (weigh carrying s - carrying t.pc + (weigh finishing s - finishing t.pc))
  have carriers := weigh_moved carrying u pc' at_i
  have finishers := weigh_moved finishing u pc' at_i
  have carrier := le_weigh (w := carrying) member
  have finisher := le_weigh (w := finishing) member
  have still {w : Pc → Nat} (le : ∀ pc, w pc ≤ initialising pc) : weigh w (s.moved u i t pc') = weigh w s := by
    have changed := weigh_moved w u pc' at_i
    have fewer := (next_initialising taken).1
    simp only [initialising, noinit, Bool.toNat_false] at fewer
    have own := le t.pc
    simp only [initialising, noinit, Bool.toNat_false] at own
    have := le pc'
    simp only [initialising] at this
    omega
  have still_unflagged := still fun pc => Nat.le_trans (unflagged_le pc) (unregistered_le pc)
  have still_unregistered := still unregistered_le
  refine ⟨?_, fun live none => ?_, fun live none free => ?_, fun x hx => ?_, fun io member => ?_⟩
  · have := reg.token
    unfold holders at this ⊢
    show _ + u.sendIo.length + _ ≤ u.bSendFlag ∧ _ + u.sendIo.length + _ ≤ 1
    omega
  · rw [still_unflagged] at none
    have := reg.flag (alive live) none
    show u.bSendFlag ≤ 1
    omega
  · rw [still_unregistered] at none
    have free : u.bSendFlag = 0 := free
    rw [same]
    exact reg.idle (alive live) none (by omega)
  · rcases mem_moved hx with old | rfl
    · exact (reg.threads x old).mono same count grows
    · rcases moves with none | ⟨free, acts, rfl⟩
      · exact .of_aside none
      · exact same.trans ((reg.working id counts member acts).2 free)
  · obtain ⟨old, had, is⟩ := next_aside_sent taken (by omega) io member
    rw [same, is]
    exact reg.sent old had

theorem Registration.step_holder (reg : Registration s) (id : Identified cfg s) (counts : Counts cfg s) (linked : Linked s)
    (at_i : s.threads[i]? = some t) (taken : next cfg s t.role ans t.pc = some (u, pc'))
    (holds : carrying t.pc + finishing t.pc = 1) : Registration (s.moved u i t pc') := by
  have member := List.mem_of_getElem? at_i
  have acts : 0 < acting t.pc := Nat.lt_of_lt_of_le (by omega) (holding_le_acting t.pc)
  obtain ⟨-, nobody, -⟩ := id.working counts member acts
  have noinit : t.pc.initialises = false := by
    have own := le_weigh (w := initialising) member
    unfold initialising at own nobody
    cases here : t.pc.initialises with
    | false => rfl
    | true =>
      rw [here] at own
      simp only [Bool.toNat_true] at own
      omega
  have free := (reg.working id counts member acts).1
  have carriers := weigh_moved carrying u pc' at_i
  have finishers := weigh_moved finishing u pc' at_i
  have carrier := le_weigh (w := carrying) member
  have finisher := le_weigh (w := finishing) member
  have tok := reg.token
  unfold holders at tok
  have token := next_token taken noinit (weigh carrying s - carrying t.pc + (weigh finishing s - finishing t.pc))
    (by omega) (by omega)
  have alone : s.sendIo = [] := List.length_eq_zero_iff.mp (by omega)
  have counted : s.SendQueueCount ≤ s.SendQueue.length := Nat.le.intro linked.symm
  obtain ⟨registers, idle, sent, -⟩ := next_holder taken holds (by omega) alone (reg.threads t member) counted
  refine ⟨?_, fun _ _ => (next_flag taken free : u.bSendFlag ≤ 1), fun _ _ => idle, fun x hx => ?_, sent⟩
  · unfold holders
    show _ + u.sendIo.length + _ ≤ u.bSendFlag ∧ _ + u.sendIo.length + _ ≤ 1
    omega
  · rcases moved_at hx with rfl | ⟨j, apart, at_j⟩
    · exact registers
    · have two := add_le_total (w := fun t : Thread => carrying t.pc + finishing t.pc) at_i at_j apart
      have both : total (fun t : Thread => carrying t.pc + finishing t.pc) s.threads = weigh carrying s + weigh finishing s :=
        weigh_add
      exact .of_aside (by omega)

theorem Registration.step_initialiser (reg : Registration s) (id : Identified cfg s)
    (at_i : s.threads[i]? = some t) (taken : next cfg s t.role ans t.pc = some (u, pc')) (init : t.pc.initialises = true)
    (alive : (core u).live = 1 → (core s).live = 1 ∨ stage t.pc = .reviving true) :
    Registration (s.moved u i t pc') := by
  have member := List.mem_of_getElem? at_i
  obtain ⟨sendIo, registers, noholder, -, unflags, flag, unregs, reg', revives⟩ := next_initialiser taken init
  have own := le_weigh (w := initialising) member
  have one : initialising t.pc = 1 := by simp [initialising, init]
  have apart := id.exclusive.2
  obtain ⟨no_act, no_ops⟩ : weigh acting s = 0 ∧ (core s).ops = 0 := by omega
  have nobody := weigh_le (s := s) holding_le_acting
  rw [weigh_add] at nobody
  have none : s.sendIo = [] := List.length_eq_zero_iff.mp (by simp only [core] at no_ops; omega)
  have carriers := weigh_moved carrying u pc' at_i
  have finishers := weigh_moved finishing u pc' at_i
  have unflagged_changed := weigh_moved unflagged u pc' at_i
  have unregistered_changed := weigh_moved unregistered u pc' at_i
  have unflagged_own := le_weigh (w := unflagged) member
  have unregistered_own := le_weigh (w := unregistered) member
  have length : u.sendIo.length = 0 := by rw [sendIo, none]; rfl
  refine ⟨?_, fun live unfl => ?_, fun live unreg free => ?_, fun x hx => ?_, ?_⟩
  · unfold holders
    show _ + u.sendIo.length + _ ≤ u.bSendFlag ∧ _ + u.sendIo.length + _ ≤ 1
    omega
  · show u.bSendFlag ≤ 1
    rcases alive live with was | revived
    · rcases flag with ⟨same, is⟩ | reset
      · rw [is]
        exact reg.flag was (by omega)
      · omega
    · have := (revives revived).1
      omega
  · show registered u = []
    rcases alive live with was | revived
    · rcases reg' with ⟨same, is⟩ | emptied
      · rw [is]
        have free : u.bSendFlag = 0 := free
        exact reg.idle was (by omega) (by omega)
      · exact emptied
    · have := (revives revived).2
      omega
  · rcases mem_moved hx with old | rfl
    · have acts := le_weigh (w := acting) old
      have := holding_le_acting x.pc
      exact .of_aside (by omega)
    · exact registers
  · show ∀ io ∈ u.sendIo, _
    rw [sendIo, none]
    simp

theorem unharmed_of_start (start : pc.Start) : carrying pc = 0 ∧ ∀ refs, pc ≠ .crashed refs := by
  cases pc <;> simp_all [Pc.Start, carrying]

/-- Outside the threads, the flag goes from an operation to the worker that handles its completion. -/
theorem Registration.join (reg : Registration s) (same : s.Untouched s') (threads : s'.threads = s.threads ++ new)
    (start : ∀ t ∈ new, t.pc.Start) (registers : ∀ t ∈ new, Registers s t.pc)
    (token : s'.sendIo.length + total (fun t => finishing t.pc) new ≤ s.sendIo.length)
    (sent : ∀ io ∈ s'.sendIo, ∃ old ∈ s.sendIo, io.packets = old.packets) : Registration s' := by
  have live : (core s').live = (core s).live := live_eq same.count same.inits
  have kept : registered s' = registered s := by
    unfold registered
    rw [same.packets.1, same.packets.2]
  have carriers : total (fun t : Thread => carrying t.pc) new = 0 :=
    total_eq_zero.mpr fun t ht => (unharmed_of_start (start t ht)).1
  have grows : s.SendQueueCount ≤ s'.SendQueueCount := Nat.le_of_eq same.queue.2.symm
  refine ⟨?_, ?_, ?_, fun t ht => ?_, fun io member => ?_⟩
  · have := reg.token
    unfold holders at *
    rw [weigh_join threads, weigh_join threads, same.flag]
    omega
  · rw [live, weigh_join threads, same.flag]
    exact fun alive none => reg.flag alive (by omega)
  · rw [live, weigh_join threads, same.flag, kept]
    exact fun alive none => reg.idle alive (by omega)
  · rw [threads] at ht
    rcases List.mem_append.mp ht with old | joined
    · exact (reg.threads t old).mono kept same.packets.2 grows
    · exact (registers t joined).mono kept same.packets.2 grows
  · obtain ⟨old, had, is⟩ := sent io member
    rw [kept, is]
    exact reg.sent old had

theorem Registration.step_outside (reg : Registration s) (h : step cfg s l = some s')
    (outside : ∀ i ans, l ≠ .thread i ans) : Registration s' := by
  have same := (Session.step_outside h outside).1
  cases l with
  | accept count sock address =>
    obtain ⟨-, rfl⟩ := step_accept h
    exact reg.join same rfl (by simp [Pc.Start]) (by simp [Registers]) (Nat.le_refl _) fun io member => ⟨io, member, rfl⟩
  | call call sessionID =>
    obtain rfl := Option.some.inj h
    exact reg.join same rfl (by simp [Pc.Start]) (by simp [Registers]) (Nat.le_refl _) fun io member => ⟨io, member, rfl⟩
  | recvCompletes j data =>
    obtain ⟨io, -, -, rfl⟩ := step_recvCompletes h
    exact reg.join same (List.append_nil _).symm (by simp) (by simp) (Nat.le_refl _) fun io member => ⟨io, member, rfl⟩
  | recvFails j =>
    obtain ⟨io, -, rfl⟩ := step_recvFails h
    exact reg.join same (List.append_nil _).symm (by simp) (by simp) (Nat.le_refl _) fun io member => ⟨io, member, rfl⟩
  | sendCompletes j =>
    obtain ⟨io, at_j, rfl⟩ := step_sendCompletes h
    refine reg.join same (List.append_nil _).symm (by simp) (by simp) (by simp) fun io' member => ?_
    rcases List.mem_or_eq_of_mem_set member with old | rfl
    · exact ⟨io', old, rfl⟩
    · exact ⟨io, List.mem_of_getElem? at_j, rfl⟩
  | sendFails j =>
    obtain ⟨io, at_j, rfl⟩ := step_sendFails h
    refine reg.join same (List.append_nil _).symm (by simp) (by simp) (by simp) fun io' member => ?_
    rcases List.mem_or_eq_of_mem_set member with old | rfl
    · exact ⟨io', old, rfl⟩
    · exact ⟨io, List.mem_of_getElem? at_j, rfl⟩
  | workRecv j =>
    obtain ⟨io, success, n, -, -, rfl⟩ := step_workRecv h
    refine reg.join same rfl ?_ ?_ ?_ fun io member => ⟨io, member, rfl⟩
    all_goals cases success <;> simp [Pc.Start, Registers, total, finishing]
  | workSend j =>
    obtain ⟨io, success, n, at_j, -, rfl⟩ := step_workSend h
    have shorter := length_eraseIdx_add_one at_j
    obtain ⟨are, fits⟩ := reg.sent io (List.mem_of_getElem? at_j)
    rw [← are, registered_length] at fits
    refine reg.join same rfl ?_ ?_ ?_ fun io' member => ⟨io', List.mem_of_mem_eraseIdx member, rfl⟩
    · cases success <;> simp [Pc.Start]
    · cases success <;> simp [Registers, fits]
    · rw [← shorter]
      cases success <;> simp [total, finishing]
  | workRelease j =>
    obtain ⟨sessionID, -, rfl⟩ := step_workRelease h
    exact reg.join same rfl (by simp [Pc.Start]) (by simp [Registers]) (Nat.le_refl _) fun io member => ⟨io, member, rfl⟩
  | thread i ans => exact absurd rfl (outside i ans)

theorem Registration.step (reg : Registration s) (sep : Separate cfg s) (few : Few cfg s l) (h : step cfg s l = some s') :
    Registration s' := by
  obtain ⟨counts, id, linked, -⟩ := sep
  by_cases threaded : ∃ i ans, l = .thread i ans
  · obtain ⟨i, ans, rfl⟩ := threaded
    have few := few s' h
    obtain ⟨t, u, pc', at_i, taken, rfl⟩ := step_thread h
    have member := List.mem_of_getElem? at_i
    have alive : (core u).live = 1 → (core s).live = 1 ∨ stage t.pc = .reviving true := by
      rw [← refs_core, stages_moved] at few
      rcases (counts.inv.move_live (stages_at at_i) (counts.move member taken) few).2 with same | ⟨revived, -⟩ | ⟨-, -, -, dead⟩
      · exact fun live => .inl (same.symm.trans live)
      · exact fun _ => .inr revived
      · exact fun live => absurd (live.symm.trans dead) (by decide)
    cases init : t.pc.initialises with
    | true => exact reg.step_initialiser id at_i taken init alive
    | false =>
      by_cases aside : carrying t.pc + finishing t.pc = 0
      · refine reg.step_aside id counts at_i taken init aside fun live => (alive live).resolve_right fun revived => ?_
        cases here : t.pc <;> simp [here, stage, Pc.initialises] at revived init
      · have := holding_le_one t.pc
        exact reg.step_holder id counts linked at_i taken (by omega)
  · exact reg.step_outside h fun i ans is => threaded ⟨i, ans, is⟩

theorem Run.registration (run : Run (slot cfg) (fun s l => Few cfg s l ∧ Called cfg s l) tr s) :
    Separate cfg s ∧ Registration s := by
  refine ⟨Run.separate run, run.invariant (I := fun _ s => Registration s) (fun s fresh => .init fresh) ?_⟩
  intro tr s l s' before reg ⟨few, _⟩ h
  exact reg.step (Run.separate before) few h

def Unharmed (s : Slot) : Prop := ∀ t ∈ s.threads, ∀ refs, t.pc ≠ .crashed refs

theorem Unharmed.step (unharmed : Unharmed s) (sep : Separate cfg s) (reg : Registration s) (countable : Countable cfg s)
    (h : step cfg s l = some s') : Unharmed s' := by
  by_cases threaded : ∃ i ans, l = .thread i ans
  · obtain ⟨i, ans, rfl⟩ := threaded
    obtain ⟨t, u, pc', at_i, taken, rfl⟩ := step_thread h
    have member := List.mem_of_getElem? at_i
    intro x hx
    rcases mem_moved hx with old | rfl
    · exact unharmed x old
    refine next_unharmed taken countable (fun holds => ?_) (reg.threads t member) fun again is => ?_
    · have acts := holding_le_acting t.pc
      have free := (reg.working sep.identified sep.counts member (by omega)).1
      have carrier := le_weigh (w := carrying) member
      have finisher := le_weigh (w := finishing) member
      have token := reg.token
      unfold holders at token
      omega
    · have closing := mem_stages member
      rw [is] at closing
      exact sep.counts.inv.open_while_closing closing
  · intro x hx
    rcases (step_outside h fun i ans is => threaded ⟨i, ans, is⟩).2 with same | ⟨t, more, start⟩
    · rw [same] at hx
      exact unharmed x hx
    · rw [more] at hx
      rcases List.mem_append.mp hx with old | new
      · exact unharmed x old
      · obtain rfl := List.mem_singleton.mp new
        exact (unharmed_of_start start).2

/-! ### From `SendQueue` to `WSASend` -/

theorem next_carried {T : Tally} (h : next cfg s t.role ans t.pc = some (s', pc')) (carries : carrying t.pc = 1)
    (linked : s.SendQueueCount ≤ s.SendQueue.length) (carried : T.dequeued = T.handed ++ batchOf t.pc)
    (unharmed : ∀ refs, pc' ≠ .crashed refs) : (T.thread cfg s t).dequeued = (T.thread cfg s t).handed ++ batchOf pc' := by
  obtain ⟨role, pc⟩ := t
  cases next_moves h with
  | sendRecountsNone | sendRecount | sendGiveBack => exact carried
  | sendGiveBackCrash | sendDequeueCrash => exact absurd rfl (unharmed 1)
  | sendDequeueWaits n wsabuf more left empty =>
    have := positive_of_getCount left
    rw [empty, List.length_nil] at linked
    omega
  | sendDequeue n wsabuf packet queue more left is => simp [Tally.thread, more, is, batchOf, carried]
  | sendIncrement n wsabuf full => simpa [Tally.thread, full, batchOf] using carried
  | wsaSend wsabuf | wsaSendAtOnce wsabuf | wsaSendFails wsabuf =>
    have handed : (T.thread cfg s ⟨role, .wsaSend wsabuf⟩).dequeued = (T.thread cfg s ⟨role, .wsaSend wsabuf⟩).handed := carried
    rw [handed]
    exact (List.append_nil _).symm
  | _ => cases carries

theorem next_uncarried {T : Tally} (h : next cfg s t.role ans t.pc = some (s', pc')) (off : carrying t.pc = 0) :
    (T.thread cfg s t).dequeued = T.dequeued ∧ (T.thread cfg s t).handed = T.handed ∧ batchOf pc' = [] := by
  obtain ⟨role, pc⟩ := t
  have thread : (T.thread cfg s ⟨role, pc⟩).dequeued = T.dequeued ∧ (T.thread cfg s ⟨role, pc⟩).handed = T.handed := by
    cases pc
    case callEnqueue => rcases role with ⟨_ | _ | _ | _, _⟩ | _ | _ <;> exact ⟨rfl, rfl⟩
    all_goals first
      | exact ⟨rfl, rfl⟩
      | simp [carrying] at off
  refine ⟨thread.1, thread.2, ?_⟩
  cases next_moves h with
  | decDecrement again | releasePush again => cases again <;> rfl
  | _ =>
    first
      | rfl
      | cases off

/-- What was dequeued is what was handed to `WSASend`, and the batch of the thread that is at it. -/
structure Carried (T : Tally) (s : Slot) : Prop where
  carried : ∀ t ∈ s.threads, carrying t.pc = 1 → T.dequeued = T.handed ++ batchOf t.pc
  idle : weigh carrying s = 0 → T.dequeued = T.handed

theorem Carried.step_move (carried : Carried T s) (sep : Separate cfg s) (reg : Registration s)
    (at_i : s.threads[i]? = some t) (taken : next cfg s t.role ans t.pc = some (u, pc'))
    (after : Registration (s.moved u i t pc')) (unharmed : Unharmed (s.moved u i t pc')) : Carried (T.thread cfg s t) (s.moved u i t pc') := by
  have member := List.mem_of_getElem? at_i
  have carriers := weigh_moved carrying u pc' at_i
  have one := reg.token.2
  have one' := after.token.2
  unfold holders at one one'
  have counted : s.SendQueueCount ≤ s.SendQueue.length := Nat.le.intro sep.linked.symm
  have put : (⟨t.role, pc'⟩ : Thread) ∈ (s.moved u i t pc').threads := List.mem_set (List.getElem?_eq_some_iff.mp at_i).1 _
  by_cases carries : carrying t.pc = 1
  · have same := next_carried taken carries counted (carried.carried t member carries) (unharmed _ put)
    refine ⟨fun x hx other => ?_, fun none => ?_⟩
    · rcases moved_at hx with rfl | ⟨j, apart, at_j⟩
      · exact same
      · have two := add_le_total (w := fun t : Thread => carrying t.pc) at_i at_j apart
        unfold weigh at one
        omega
    · have own := le_weigh (w := carrying) member
      have none : carrying pc' = 0 := by omega
      rw [same, (batch_of_noncarrier none).1, List.append_nil]
  · have off : carrying t.pc = 0 := by
      have := carrying_le t.pc
      omega
    obtain ⟨dequeued, handed, batch⟩ := next_uncarried (T := T) taken off
    refine ⟨fun x hx other => ?_, fun none => ?_⟩
    all_goals rw [dequeued, handed]
    · rcases mem_moved hx with old | rfl
      · exact carried.carried x old other
      · rw [batch, List.append_nil]
        have other : carrying pc' = 1 := other
        exact carried.idle (by omega)
    · exact carried.idle (by omega)

theorem Carried.step (carried : Carried (tally cfg tr) s) (sep : Separate cfg s) (reg : Registration s)
    (after : Registration s') (unharmed : Unharmed s') (h : step cfg s l = some s') : Carried (tally cfg (tr ++ [(s, l)])) s' := by
  rw [tally_append]
  by_cases threaded : ∃ i ans, l = .thread i ans
  · obtain ⟨i, ans, rfl⟩ := threaded
    obtain ⟨t, u, pc', at_i, taken, rfl⟩ := step_thread h
    have tallied : (tally cfg tr).add cfg (s, .thread i ans) = (tally cfg tr).thread cfg s t := by simp [Tally.add, at_i]
    rw [tallied]
    exact carried.step_move sep reg at_i taken after unharmed
  · have outside (i ans) : l ≠ .thread i ans := fun is => threaded ⟨i, ans, is⟩
    have tallied : (tally cfg tr).add cfg (s, l) = tally cfg tr := by
      cases l <;> first | rfl | exact absurd rfl (outside _ _)
    rw [tallied]
    rcases (step_outside h outside).2 with still | ⟨t, more, start⟩
    · exact ⟨by rw [still]; exact carried.carried, by unfold weigh; rw [still]; exact carried.idle⟩
    · refine ⟨fun x hx carries => ?_, fun none => carried.idle ?_⟩
      · rw [more] at hx
        rcases List.mem_append.mp hx with old | new
        · exact carried.carried x old carries
        · obtain rfl := List.mem_singleton.mp new
          have := (unharmed_of_start start).1
          omega
      · rw [weigh_join more] at none
        omega

structure Slot.New (s : Slot) : Prop extends Slot.Fresh s where
  unheld : s.IoCount = 0
  unsent : s.SendQueue = []

def newSlot (cfg : Config) : System Slot Label where
  init := Slot.New
  step := step cfg

theorem Slot.New.registered (new : s.New) : s.RegisteredPacketCount = 0 := by
  rcases new.count with ⟨-, none⟩ | released
  · exact none
  · exact absurd (new.unheld.symm.trans released) (by decide)

theorem Run.registered (run : Run (newSlot cfg) (fun s l => Few cfg s l ∧ Called cfg s l) tr s) :
    Separate cfg s ∧ Registration s :=
  Run.registration (run.widen (S := newSlot cfg) (T := slot cfg) (fun _ new => Slot.New.toFresh new) rfl)

/-- The entry of `RegisteredPackets` that the thread is about to write or read. -/
def indexed (s : Slot) : Pc → Option Nat
  | .sendDequeue sendCount wsabuf =>
    if wsabuf.length < maxWsaBufCount ∧ sendCount ≠ 0 then some s.RegisteredPacketCount else none
  | .sendDoneDrop count i => if i < count then some i else none
  | .initDropRefs i => if i < s.RegisteredPacketCount then some i else none
  | _ => none

theorem next_fits (reg : Registration s) (sep : Separate cfg s) (at_i : s.threads[i]? = some t)
    (taken : next cfg s t.role ans t.pc = some (u, pc')) (fits : s.RegisteredPacketCount ≤ maxWsaBufCount) :
    u.RegisteredPacketCount ≤ maxWsaBufCount := by
  have member := List.mem_of_getElem? at_i
  cases init : t.pc.initialises with
  | true => exact Nat.le_trans (next_initialiser taken init).2.2.2.1 fits
  | false =>
    by_cases aside : carrying t.pc + finishing t.pc = 0
    · exact Nat.le_trans (Nat.le_of_eq (next_aside_of_flag taken init aside).2.2.1) fits
    · have one := holding_le_one t.pc
      have acts := holding_le_acting t.pc
      have free := (reg.working sep.identified sep.counts member (by omega)).1
      have carrier := le_weigh (w := carrying) member
      have finisher := le_weigh (w := finishing) member
      have token := reg.token
      unfold holders at token
      have alone : s.sendIo = [] := List.length_eq_zero_iff.mp (by omega)
      have counted : s.SendQueueCount ≤ s.SendQueue.length := Nat.le.intro sep.linked.symm
      exact (next_holder taken (by omega) (by omega) alone (reg.threads t member) counted).fits fits

/-- The send side of a slot along every run since `Start`, as long as `GetCount()` is exact: one `WSASend` at a
time, on which the packets go out as they were dequeued; registering starts at entry 0 and stays within the array;
and no assertion fails. -/
theorem send_pipeline_is_safe (exact_count : cfg.countWraps = false)
    (run : Run (newSlot cfg) (fun s l => Few cfg s l ∧ Called cfg s l) tr s) :
    s.sendIo.length ≤ 1 ∧
    (∀ t ∈ s.threads, t.pc = .sendRecount → s.RegisteredPacketCount = 0) ∧
    (∀ t ∈ s.threads, ∀ k ∈ indexed s t.pc, k < maxWsaBufCount) ∧
    ((∀ t ∈ s.threads, carrying t.pc = 1 → (tally cfg tr).dequeued = (tally cfg tr).handed ++ batchOf t.pc) ∧
      ((∀ t ∈ s.threads, carrying t.pc = 0) → (tally cfg tr).dequeued = (tally cfg tr).handed)) ∧
    ∀ t ∈ s.threads, ∀ refs, t.pc ≠ .crashed refs := by
  obtain ⟨sep, reg⟩ := Run.registered run
  obtain ⟨carried, fits, unharmed⟩ : Carried (tally cfg tr) s ∧ s.RegisteredPacketCount ≤ maxWsaBufCount ∧ Unharmed s := by
    refine run.invariant (I := fun tr s => Carried (tally cfg tr) s ∧ s.RegisteredPacketCount ≤ maxWsaBufCount ∧ Unharmed s)
      (fun s new => ⟨⟨?_, fun _ => rfl⟩, ?_, ?_⟩) ?_
    · simp [new.idle.1]
    · rw [new.registered]
      exact Nat.zero_le _
    · simp [Unharmed, new.idle.1]
    · intro tr s l s' before ⟨carried, fits, unharmed⟩ known h
      obtain ⟨sep, reg⟩ := Run.registered before
      have after := reg.step sep known.1 h
      have unharmed := unharmed.step sep reg (countable_of_exact exact_count) h
      refine ⟨carried.step sep reg after unharmed h, ?_, unharmed⟩
      by_cases threaded : ∃ i ans, l = .thread i ans
      · obtain ⟨i, ans, rfl⟩ := threaded
        obtain ⟨t, u, pc', at_i, taken, rfl⟩ := step_thread h
        exact (next_fits reg sep at_i taken fits : u.RegisteredPacketCount ≤ _)
      · have same := (step_outside h fun i ans is => threaded ⟨i, ans, is⟩).1
        rw [same.packets.2]
        exact fits
  have token := reg.token
  unfold holders at token
  refine ⟨by omega, fun t member here => ?_, fun t member k index => ?_, ⟨carried.carried, fun none => ?_⟩, unharmed⟩
  · have registers := reg.threads t member
    rw [here] at registers
    exact registered_nil registers
  · have registers := reg.threads t member
    cases here : t.pc
    all_goals
      rw [here] at index registers
      simp only [indexed, Option.mem_def, reduceCtorEq] at index
    all_goals
      split at index
      next within_ =>
        cases index
        first
        | exact Nat.lt_of_lt_of_le within_ registers.2
        | exact Nat.lt_of_lt_of_le within_ fits
        | rw [← registered_length, registers.1]; exact within_.1
      next => cases index
  · exact carried.idle (total_eq_zero.mpr none)

/-- As `plain`, with `Enqueue` in two steps and a count without bound. -/
def visibleFirst : Config := { plain with countsLater := true, countWraps := false }

theorem unusedSlot_new : unusedSlot.New := ⟨unusedSlot_fresh, rfl, rfl⟩

/-- The `WSASend` of the first session is reset and leaves its packet registered; the slot is
released and accepted into again, and a packet of the second session is on its way. -/
def resetThenSend : List Label := acceptRound 1 7 9 0 ++ .thread 0 .pending :: List.replicate 3 (Label.thread 0 .go) ++
  .call (.sendPacket 100) 1 :: List.replicate 14 (Label.thread 1 .go) ++ .thread 1 .reset :: List.replicate 4 (Label.thread 1 .go) ++
  .recvFails 0 :: .workRecv 0 :: List.replicate 7 (Label.thread 2 .go) ++
  acceptRound 2 8 9 3 ++ .thread 3 .go :: .thread 3 .pending :: List.replicate 3 (Label.thread 3 .go) ++
  .call (.sendPacket 200) 2 :: List.replicate 14 (Label.thread 4 .go)

theorem second_session_sends_after_reset : ∃ (tr : List (Slot × Label)) (s : Slot), tr.map Prod.snd = resetThenSend ∧
    s.threads[4]? = some ⟨.api (.sendPacket 200) 2, .wsaSend [⟨200, 2⟩]⟩ ∧
    (tally visibleFirst tr).dequeued = (tally visibleFirst tr).handed ++ [⟨200, 2⟩] ∧ s.sendIo.length ≤ 1 ∧ ∀ t ∈ s.threads, ∀ refs, t.pc ≠ .crashed refs := by
  have along : Along (newSlot visibleFirst) (fun s l => Few visibleFirst s l ∧ Called visibleFirst s l) unusedSlot resetThenSend := by
    decide +kernel
  obtain ⟨s, reached, run⟩ := Run.along (.init unusedSlot_new) along
  have sends : (exec (newSlot visibleFirst) unusedSlot resetThenSend).map (fun s => s.threads[4]?) =
      some (some ⟨.api (.sendPacket 200) 2, .wsaSend [⟨200, 2⟩]⟩) := by decide +kernel
  rw [reached] at sends
  have at_four := Option.some.inj sends
  obtain ⟨one, -, -, ⟨carried, -⟩, unharmed⟩ := send_pipeline_is_safe rfl run
  exact ⟨_, s, trace_labels reached, at_four, carried _ (List.mem_of_getElem? at_four) rfl, one, unharmed⟩

/-! ### A send that outlives its session -/

/-- A session with a receive and a send pending, and a caller in its guard. -/
def sendPending : List Label := acceptRound 1 7 9 0 ++ .thread 0 .pending :: List.replicate 3 (Label.thread 0 .go) ++
  .call (.sendPacket 100) 1 :: List.replicate 14 (Label.thread 1 .go) ++ .thread 1 .pending :: List.replicate 3 (Label.thread 1 .go) ++
  [.call .getSessionAddress 1, .thread 2 .go]

theorem sendPending_end (reached : exec (newSlot visibleFirst) unusedSlot sendPending = some s) :
    (s.IoCount = 3 ∧ s.ID = 1 ∧ s.SessionListKey = 0 ∧ s.unusedKeys = 0) ∧ (s.issued = [1] ∧ s.accepted = 1) ∧
      (s.bDisconnected = false ∧ s.bDisconnectRegistered = false) ∧ s.RegisteredPacketCount = 1 ∧
      s.sendIo = [⟨7, [⟨100, 1⟩], .pending false⟩] ∧ s.threads = [⟨.accept 1 7 9, .finished⟩,
        ⟨.api (.sendPacket 100) 1, .finished⟩, ⟨.api .getSessionAddress 1, .callTestDisconnected⟩] := by
  have members : (exec (newSlot visibleFirst) unusedSlot sendPending).map (fun s => ((s.IoCount, s.ID, s.SessionListKey, s.unusedKeys),
      (s.issued, s.accepted), (s.bDisconnected, s.bDisconnectRegistered))) =
      some ((3, 1, 0, 0), ([1], 1), (false, false)) := by decide +kernel
  have sends : (exec (newSlot visibleFirst) unusedSlot sendPending).map (fun s => (s.RegisteredPacketCount, s.sendIo, s.threads)) =
      some (1, [⟨7, [⟨100, 1⟩], .pending false⟩], [⟨.accept 1 7 9, .finished⟩,
        ⟨.api (.sendPacket 100) 1, .finished⟩, ⟨.api .getSessionAddress 1, .callTestDisconnected⟩]) := by decide +kernel
  rw [reached] at members sends
  simp only [Option.map_some, Option.some.injEq, Prod.mk.injEq] at members sends
  exact ⟨members.1, members.2.1, members.2.2, sends⟩

theorem init_resets_flag (s : Slot) : solo visibleFirst (.accept 2 8 9) (List.replicate 6 .go) (s, .acceptIncrement) = some ({ s with
    IoCount := inc32 s.IoCount &&& 0x7FFFFFFF, inits := s.inits + 1, ID := newSessionID visibleFirst 2, Socket := 8, Address := 9
    bSendFlag := 0 }, .initKey) := rfl

theorem completion_crashes (count : s.RegisteredPacketCount = 1) (unregistered : s.bDisconnectRegistered = false)
    (reset : s.bSendFlag = 0) : solo visibleFirst .worker (List.replicate 5 .go) (s, .sendDoneTake) =
      some ({ s with RegisteredPacketCount := 0 }, .crashed 1) := by
  cases s
  simp only at count unregistered reset
  subst count unregistered reset
  rfl

theorem goes (C : Slot → Label → Prop) (free : ∀ u i ans, C u (.thread i ans)) (u : Slot) (i : Nat) (answers : List Answer) :
    ∀ l ∈ answers.map (Label.thread i), C u l := by
  intro l member
  obtain ⟨ans, -, rfl⟩ := List.mem_map.mp member
  exact free u i ans

/-- The caller in its guard leaves after 2^32 - 2 others came, and takes the session with it. -/
theorem released_under_send : ∃ tr s, Run (newSlot visibleFirst) (Called visibleFirst) tr s ∧
    (s.unusedKeys = 1 ∧ s.accepted = 1 ∧ 1 ∈ s.issued) ∧ s.bDisconnectRegistered = false ∧ s.RegisteredPacketCount = 1 ∧
    s.sendIo = [⟨7, [⟨100, 1⟩], .pending false⟩] ∧ ∀ t ∈ s.threads, ∀ sessionID ∈ t.caller, sessionID = 1 := by
  have along : Along (newSlot visibleFirst) (Called visibleFirst) unusedSlot sendPending := by decide +kernel
  obtain ⟨s, reached, run⟩ := Run.along (.init unusedSlot_new) along
  obtain ⟨⟨count, id, key, keys⟩, ⟨issued, accepted⟩, unclosed, packets, sendIo, threads⟩ := sendPending_end reached
  have known : Knows visibleFirst s s.accepted 1 := by
    rw [accepted]
    exact ⟨1, by simp [issued], rfl, by decide⟩
  obtain ⟨tr, pcs, run⟩ := crowd_releases (S := newSlot visibleFirst) [_, _] rfl (fun _ known => known)
    (fun _ _ => trivial) run known (by omega) id key unclosed threads
  refine ⟨_, _, run, ⟨congrArg (· + 1) keys, accepted, by simp [issued]⟩, unclosed.2, packets, sendIo, fun t member sessionID caller => ?_⟩
  rcases List.mem_append.mp member with own | parked
  · obtain rfl | rfl : t = _ ∨ t = _ := by simpa using own
    · cases caller
    · cases caller
  · obtain ⟨pc, -, rfl⟩ := List.mem_map.mp parked
    obtain ⟨call, role⟩ := role_of_caller caller
    cases role
    rfl

/-- Once `IoCount` has wrapped around, a session is released under its pending send, and the
completion finds the flag reset by the next session's `Init`. -/
theorem crowded_send_fails_assertion : ∃ tr s, Run (newSlot visibleFirst) (Called visibleFirst) tr s ∧
    ⟨.worker, .crashed 1⟩ ∈ s.threads := by
  obtain ⟨tr, s, run, ⟨keys, accepted, issued⟩, unregistered, packets, sendIo, callers⟩ := released_under_send
  have called : Called visibleFirst s (.accept 2 8 9) := by
    refine ⟨by omega, fun t member sessionID caller => ⟨1, issued, ?_, by decide⟩⟩
    rw [callers t member sessionID caller]
    decide
  have popped : (newSlot visibleFirst).step s (.accept 2 8 9) = some ({ s with unusedKeys := 0, accepted := 2, acceptedSocket := 8 }.spawn
      (.accept 2 8 9) .acceptIncrement) := by
    simp [newSlot, step, keys]
  have run := run.step called popped
  have reset := exec_solo (S := newSlot visibleFirst) rfl (i := s.threads.length) (t := ⟨.accept 2 8 9, .acceptIncrement⟩) (by simp [Slot.spawn])
    (init_resets_flag ({ s with unusedKeys := 0, accepted := 2, acceptedSocket := 8 }.spawn (.accept 2 8 9) .acceptIncrement))
  obtain ⟨more, -, run⟩ := Run.exec run reset fun u => goes _ (fun _ _ _ => trivial) u _ _
  obtain ⟨tr, v, run, unregistered, packets, flag, sendIo⟩ : ∃ tr v, Run (newSlot visibleFirst) (Called visibleFirst) tr v ∧
      v.bDisconnectRegistered = false ∧ v.RegisteredPacketCount = 1 ∧ v.bSendFlag = 0 ∧
      v.sendIo = [⟨7, [⟨100, 1⟩], .pending false⟩] := ⟨_, _, run, unregistered, packets, rfl, sendIo⟩
  have completed : (newSlot visibleFirst).step v (.sendCompletes 0) = some { v with sendIo := [⟨7, [⟨100, 1⟩], .done true 0⟩] } := by
    simp [newSlot, step, sendIo]
  have taken : (newSlot visibleFirst).step { v with sendIo := [⟨7, [⟨100, 1⟩], .done true 0⟩] } (.workSend 0) =
      some ({ v with sendIo := [] }.spawn .worker .sendDoneTake) := by
    simp [newSlot, step, Slot.spawn]
  have calm {u : Slot} : Called visibleFirst u (.sendCompletes 0) ∧ Called visibleFirst u (.workSend 0) := ⟨trivial, trivial⟩
  have run := (run.step calm.1 completed).step calm.2 taken
  have crashes := exec_solo (S := newSlot visibleFirst) rfl (i := v.threads.length) (t := ⟨.worker, .sendDoneTake⟩) (by simp [Slot.spawn])
    (completion_crashes (s := { v with sendIo := [] }.spawn .worker .sendDoneTake) packets unregistered flag)
  obtain ⟨more, -, run⟩ := Run.exec run crashes fun u => goes _ (fun _ _ _ => trivial) u _ _
  exact ⟨_, _, run, by simp [Slot.spawn]⟩

/-! ### An ID that comes back -/

/-- Callers use IDs that `OnAccept` was given, however long ago. -/
def AnyTime (cfg : Config) (s : Slot) : Label → Prop
  | .accept count _ _ => s.accepted < count
  | .call _ sessionID => ∃ n ∈ s.issued, sessionID = newSessionID cfg n
  | _ => True

instance : Decidable (AnyTime cfg s l) :=
  match l with
  | .accept _ _ _ => inferInstanceAs (Decidable (_ < _))
  | .call _ _ => inferInstanceAs (Decidable (∃ n ∈ s.issued, _))
  | .recvCompletes _ _ | .recvFails _ | .sendCompletes _ | .sendFails _ | .workRecv _ | .workSend _ | .workRelease _ | .thread _ _ =>
    .isTrue trivial

/-- The first client resets its connection; 2^32 clients later the slot is accepted into again, under the same ID, and
a call of the first client's is past its guard while `Init` still drains the queue. -/
def oldCall : List Label := acceptRound 1 7 9 0 ++ .thread 0 .reset :: List.replicate 9 (Label.thread 0 .go) ++
  .accept (2 ^ 32 + 1) 8 9 :: List.replicate 9 (Label.thread 1 .go) ++
  .call (.sendPacket 100) 1 :: List.replicate 12 (Label.thread 2 .go) ++ List.replicate 2 (Label.thread 1 .go) ++ [.thread 2 .go]

theorem old_call_fails_assertion : ∃ tr s, Run (newSlot visibleFirst) (fun s l => Few visibleFirst s l ∧ AnyTime visibleFirst s l) tr s ∧
    ⟨.api (.sendPacket 100) 1, .crashed 1⟩ ∈ s.threads := by
  have along : Along (newSlot visibleFirst) (fun s l => Few visibleFirst s l ∧ AnyTime visibleFirst s l) unusedSlot oldCall := by
    decide +kernel
  obtain ⟨s, reached, run⟩ := Run.along (.init unusedSlot_new) along
  have crashes : (exec (newSlot visibleFirst) unusedSlot oldCall).map (fun s => s.threads[2]?) =
      some (some ⟨.api (.sendPacket 100) 1, .crashed 1⟩) := by decide +kernel
  rw [reached] at crashes
  exact ⟨_, s, run, List.mem_of_getElem? (Option.some.inj crashes)⟩

/-- Neither bound can go: past 2^32 references, and past 2^32 accepts during a call, an assertion fails. -/
theorem overflows_crash_pipeline :
    (∃ tr s, Run (newSlot visibleFirst) (Called visibleFirst) tr s ∧ ⟨.worker, .crashed 1⟩ ∈ s.threads) ∧
      ∃ tr s, Run (newSlot visibleFirst) (fun s l => Few visibleFirst s l ∧ AnyTime visibleFirst s l) tr s ∧
        ⟨.api (.sendPacket 100) 1, .crashed 1⟩ ∈ s.threads :=
  ⟨crowded_send_fails_assertion, old_call_fails_assertion⟩

end WanNet.Session
