import WanNet.Session.Registration

/-!
The packets of one session on their way out: they go to `WSASend` in the order in which they were
enqueued, each once, and nothing follows a `WSASend` that failed.
-/

namespace WanNet.Session
open Transition Threads ReleaseCount

variable {α : Type} {cfg : Config} {s s' u : Slot} {ans : Answer} {pc pc' : Pc} {t : Thread} {i : Nat} {l : Label}

/-- What a session's calls have enqueued and what its `WSASend`s have taken of that, with what is told of each packet
at the time, and whether a `WSASend` has failed. -/
structure Outbox (α : Type) where
  enqueued : List α := []
  sent : List α := []
  failed : Bool := false

def Outbox.thread (tells : Queued → α) (O : Outbox α) (t : Thread) (ans : Answer) : Outbox α :=
  match t.pc with
  | .callEnqueue =>
    match t.role with
    | .api (.sendPacket packet) sessionID | .api (.sendAndDisconnect packet) sessionID =>
      { O with enqueued := O.enqueued ++ [tells ⟨packet, sessionID⟩] }
    | _ => O
  | .wsaSend wsabuf =>
    match ans with
    | .pending | .atOnce _ => { O with sent := O.sent ++ wsabuf.map tells }
    | .reset => { O with failed := true }
    | .go => O
  | _ => O

/-- What a step of a thread gives to a `WSASend` that does not fail. -/
def given (t : Thread) (ans : Answer) : List Queued :=
  match t.pc, ans with
  | .wsaSend wsabuf, .pending | .wsaSend wsabuf, .atOnce _ => wsabuf
  | _, _ => []

/-- Every session begins with nothing. -/
def Outbox.add (tells : Queued → α) (O : Outbox α) (s : Slot) : Label → Outbox α
  | .accept _ _ _ => {}
  | .thread i ans => (s.threads[i]?).elim O fun t => O.thread tells t ans
  | _ => O

/-- The outbox of the slot's latest session. -/
def outbox (tr : List (Slot × Label)) : Outbox Queued := tr.foldl (fun O x => O.add id x.1 x.2) {}

variable {tells : Queued → α} {O : Outbox α}

theorem outbox_append (tr : List (Slot × Label)) (x : Slot × Label) : outbox (tr ++ [x]) = (outbox tr).add id x.1 x.2 := by
  simp [outbox]

theorem given_some (gives : given t ans ≠ []) : t.pc = .wsaSend (given t ans) := by
  obtain ⟨role, pc⟩ := t
  cases pc
  case wsaSend wsabuf =>
    cases ans
    case pending | atOnce => rfl
    all_goals exact absurd rfl gives
  all_goals exact absurd rfl gives

theorem thread_sent (tells : Queued → α) (O : Outbox α) (t : Thread) (ans : Answer) :
    (O.thread tells t ans).sent = O.sent ++ (given t ans).map tells := by
  obtain ⟨role, pc⟩ := t
  cases pc
  case wsaSend wsabuf =>
    cases ans
    case pending | atOnce => rfl
    all_goals exact (List.append_nil _).symm
  case callEnqueue => rcases role with ⟨_ | _ | _ | _, _⟩ | _ | _ <;> exact (List.append_nil _).symm
  all_goals exact (List.append_nil _).symm

/-- What the threads have taken out of `SendQueue` and not handed over yet. -/
def batches (s : Slot) : List Queued := s.threads.flatMap fun t => batchOf t.pc

theorem batches_same (at_i : s.threads[i]? = some t) (same : batchOf pc' = batchOf t.pc) : batches (s.moved u i t pc') = batches s := by
  unfold batches
  exact flatMap_set_same at_i same

theorem batches_alone (u : Slot) (pc' : Pc) (at_i : s.threads[i]? = some t) (alone : ∀ j x, j ≠ i → s.threads[j]? = some x → batchOf x.pc = []) :
    batches s = batchOf t.pc ∧ batches (s.moved u i t pc') = batchOf pc' := by
  have sole := fun b : Thread => flatMap_set_alone at_i alone b
  constructor
  · rw [← sole t, set_same at_i]
    rfl
  · exact sole ⟨t.role, pc'⟩

/-- Between `Init` and the next session, what has been enqueued has gone to `WSASend`, or is in a batch
or in `SendQueue`, in this order. -/
structure Ordered (tells : Queued → α) (O : Outbox α) (s : Slot) : Prop where
  fresh : 0 < weigh washing s → O = {}
  whole : weigh washing s = 0 → O.failed = false → O.enqueued = O.sent ++ (batches s ++ s.SendQueue).map tells
  stopped : O.failed = true → holders s = 0 ∧ 0 < s.bSendFlag ∧ O.sent <+: O.enqueued

/-! ### A step of a thread -/

/-- The carrier moves packets from `SendQueue` to its batch and from there to `WSASend`. -/
theorem next_hands_on (tells : Queued → α) (O : Outbox α) (h : next cfg s t.role ans t.pc = some (s', pc')) (carries : carrying t.pc = 1)
    (registers : Registers s t.pc) (countable : Countable cfg s) (linked : s.SendQueueCount ≤ s.SendQueue.length) :
    (O.thread tells t ans).enqueued = O.enqueued ∧
      ((O.thread tells t ans).failed = O.failed ∧
          (O.thread tells t ans).sent ++ (batchOf pc' ++ s'.SendQueue).map tells = O.sent ++ (batchOf t.pc ++ s.SendQueue).map tells ∨
        O.thread tells t ans = { O with failed := true } ∧ carrying pc' + finishing pc' = 0 ∧ s' = s) := by
  obtain ⟨role, pc⟩ := t
  cases next_moves h with
  | sendRecountsNone | sendRecount | sendGiveBack | sendGiveBackCrash => exact ⟨rfl, .inl ⟨rfl, rfl⟩⟩
  | sendDequeueCrash n wsabuf more none =>
    obtain ⟨-, -, enough⟩ := registers
    rw [restOf_succ more ⟨0, 0⟩] at enough
    rw [getCount_eq countable] at none
    omega
  | sendDequeueWaits n wsabuf more left empty =>
    have := positive_of_getCount left
    rw [empty, List.length_nil] at linked
    omega
  | sendDequeue n wsabuf packet queue more left is =>
    refine ⟨rfl, .inl ⟨rfl, ?_⟩⟩
    show O.sent ++ ((wsabuf ++ [packet]) ++ queue).map tells = O.sent ++ (wsabuf ++ s.SendQueue).map tells
    rw [is, List.append_assoc]
    rfl
  | sendIncrement n wsabuf full => exact ⟨rfl, .inl ⟨rfl, rfl⟩⟩
  | wsaSend wsabuf answer | wsaSendAtOnce wsabuf data answer =>
    subst answer
    refine ⟨rfl, .inl ⟨rfl, ?_⟩⟩
    show (O.sent ++ wsabuf.map tells) ++ s.SendQueue.map tells = O.sent ++ (wsabuf ++ s.SendQueue).map tells
    rw [List.map_append, List.append_assoc]
  | wsaSendFails wsabuf reset =>
    subst reset
    exact ⟨rfl, .inr ⟨rfl, rfl, rfl⟩⟩
  | _ => cases carries

/-- An `Enqueue` adds to the end of both. -/
theorem next_enqueues (tells : Queued → α) (O : Outbox α) (h : next cfg s t.role ans t.pc = some (s', pc')) (here : t.pc = .callEnqueue) :
    ∃ q, O.thread tells t ans = { O with enqueued := O.enqueued ++ [tells q] } ∧ s'.SendQueue = s.SendQueue ++ [q] ∧
      carrying pc' + finishing pc' = 0 ∧ s'.sendIo = s.sendIo ∧ s'.bSendFlag = s.bSendFlag ∧ washing pc' = 0 := by
  obtain ⟨role, pc⟩ := t
  obtain rfl : pc = _ := here
  cases next_moves h with
  | callEnqueueShows packet sessionID sends | callEnqueue packet sessionID sends =>
    rcases sends with same | same
    all_goals
      cases same
      exact ⟨⟨packet, sessionID⟩, rfl, rfl, rfl, rfl, rfl, rfl⟩

/-- Off the way to `WSASend` only `Init` touches `SendQueue`, and who does not win the flag stays off it. -/
theorem next_elsewhere (tells : Queued → α) (O : Outbox α) (h : next cfg s t.role ans t.pc = some (s', pc')) (off : carrying t.pc = 0) (noenqueue : t.pc ≠ .callEnqueue) :
    O.thread tells t ans = O ∧ (washing t.pc = 0 → s'.SendQueue = s.SendQueue) ∧
      (washing t.pc = 0 → finishing t.pc = 0 → 0 < s.bSendFlag →
        carrying pc' + finishing pc' = 0 ∧ s'.sendIo.length = s.sendIo.length ∧ 0 < s'.bSendFlag) := by
  obtain ⟨role, pc⟩ := t
  have unsent : O.thread tells ⟨role, pc⟩ ans = O := by
    cases pc
    case callEnqueue => exact absurd rfl noenqueue
    case wsaSend => cases off
    all_goals rfl
  refine ⟨unsent, ?_⟩
  cases next_moves h with
  | callEnqueueShows | callEnqueue => exact absurd rfl noenqueue
  | initDrain | initSendFlag => exact ⟨nofun, nofun⟩
  | sendTakeFlag free =>
    refine ⟨fun _ => rfl, fun _ _ taken => ?_⟩
    omega
  | sendFlagTaken => exact ⟨fun _ => rfl, fun _ _ _ => ⟨rfl, rfl, Nat.one_pos⟩⟩
  | callCancel | recvCancel | sendCancel => exact ⟨fun _ => rfl, fun _ _ taken => ⟨rfl, List.length_map _, taken⟩⟩
  | decDecrement again | releasePush again => cases again <;> exact ⟨fun _ => rfl, fun _ _ taken => ⟨rfl, rfl, taken⟩⟩
  | sendDoneTake | sendDoneDrop | sendDoneDropped | sendDoneRegistered | sendDoneTest | sendDoneClearFlag | sendDoneCrash =>
    exact ⟨fun _ => rfl, fun _ idle => by cases idle⟩
  | _ =>
    first
      | exact ⟨fun _ => rfl, fun _ _ taken => ⟨rfl, rfl, taken⟩⟩
      | cases off

theorem unwashed_of_acting (sep : Separate cfg s) (member : t ∈ s.threads) (acts : 0 < acting t.pc) : weigh washing s = 0 := by
  obtain ⟨-, nobody, -⟩ := sep.identified.working sep.counts member acts
  have washers := weigh_le (s := s) washing_le
  omega

theorem Ordered.enqueues (ordered : Ordered tells O s) (sep : Separate cfg s) (at_i : s.threads[i]? = some t)
    (taken : next cfg s t.role ans t.pc = some (u, pc')) (here : t.pc = .callEnqueue) :
    Ordered tells (O.thread tells t ans) (s.moved u i t pc') := by
  have member := List.mem_of_getElem? at_i
  obtain ⟨q, grows, queue, off, sendIo, flag, unwashed'⟩ := next_enqueues tells O taken here
  have unwashed := unwashed_of_acting sep member (by rw [here]; exact Nat.one_pos)
  have same : batches (s.moved u i t pc') = batches s := by
    have off : carrying pc' = 0 := by omega
    apply batches_same at_i
    rw [(batch_of_noncarrier off).1, here]
    rfl
  have washers := weigh_moved washing u pc' at_i
  have carriers := weigh_moved carrying u pc' at_i
  have finishers := weigh_moved finishing u pc' at_i
  rw [grows]
  refine ⟨fun washes => ?_, fun _ good => ?_, fun failed => ?_⟩
  · omega
  · have whole := ordered.whole unwashed good
    show O.enqueued ++ [tells q] = O.sent ++ (batches _ ++ u.SendQueue).map tells
    rw [same, queue, whole]
    simp only [List.map_append, List.map_cons, List.map_nil, List.append_assoc]
  · obtain ⟨none, taken, sent⟩ := ordered.stopped failed
    refine ⟨?_, ?_, sent.trans (List.prefix_append ..)⟩
    · unfold holders at none ⊢
      show _ + u.sendIo.length + _ = 0
      rw [sendIo]
      omega
    · show 0 < u.bSendFlag
      rw [flag]
      exact taken

theorem Ordered.hands_on (ordered : Ordered tells O s) (sep : Separate cfg s) (reg : Registration s) (countable : Countable cfg s) (at_i : s.threads[i]? = some t)
    (taken : next cfg s t.role ans t.pc = some (u, pc')) (carries : carrying t.pc = 1) :
    Ordered tells (O.thread tells t ans) (s.moved u i t pc') := by
  have member := List.mem_of_getElem? at_i
  have counted : s.SendQueueCount ≤ s.SendQueue.length := Nat.le.intro sep.linked.symm
  obtain ⟨token, one⟩ := reg.token
  have carrier := le_weigh (w := carrying) member
  have good : O.failed = false := by
    apply Bool.eq_false_iff.mpr
    intro failed
    have none := (ordered.stopped failed).1
    unfold holders at none
    omega
  have unwashed := unwashed_of_acting sep member (acting_of_batch (.inr carries))
  have whole := ordered.whole unwashed good
  have alone (j : Nat) (x : Thread) (apart : j ≠ i) (at_j : s.threads[j]? = some x) : batchOf x.pc = [] := by
    have two := add_le_total (w := fun t : Thread => carrying t.pc) at_i at_j apart
    unfold holders weigh at one
    exact (batch_of_noncarrier (by omega)).1
  obtain ⟨before, after⟩ := batches_alone u pc' at_i alone
  have washers := weigh_moved washing u pc' at_i
  have own := le_weigh (w := washing) member
  have fewer := (next_washing taken).1
  rw [before] at whole
  obtain ⟨enqueued, ⟨failed, moves⟩ | ⟨fails, off, rfl⟩⟩ :=
    next_hands_on tells O taken carries (reg.threads t member) countable counted
  · refine ⟨fun washes => ?_, fun _ _ => ?_, fun fails => ?_⟩
    · omega
    · show _ = _ ++ (batches _ ++ u.SendQueue).map tells
      rw [after, enqueued, whole, moves]
    · cases (failed.symm.trans fails).symm.trans good
  · rw [fails]
    refine ⟨fun washes => ?_, fun _ good => ?_, fun _ => ⟨?_, ?_, ?_⟩⟩
    · omega
    · cases good
    · have carriers := weigh_moved carrying u pc' at_i
      have finishers := weigh_moved finishing u pc' at_i
      unfold holders at one ⊢
      show _ + u.sendIo.length + _ = 0
      omega
    · show 0 < u.bSendFlag
      unfold holders at token
      omega
    · rw [show O.enqueued = _ from whole]
      exact List.prefix_append ..

theorem Ordered.elsewhere (ordered : Ordered tells O s) (sep : Separate cfg s) (countable : Countable cfg s) (at_i : s.threads[i]? = some t)
    (taken : next cfg s t.role ans t.pc = some (u, pc')) (off : carrying t.pc = 0) (noenqueue : t.pc ≠ .callEnqueue) :
    Ordered tells (O.thread tells t ans) (s.moved u i t pc') := by
  have member := List.mem_of_getElem? at_i
  obtain ⟨same, queue, stays⟩ := next_elsewhere tells O taken off noenqueue
  have held : batches (s.moved u i t pc') = batches s := by
    apply batches_same at_i
    rw [(next_uncarried (T := {}) taken off).2.2, (batch_of_noncarrier off).1]
  have washers := weigh_moved washing u pc' at_i
  have washer := le_weigh (w := washing) member
  obtain ⟨fewer, -, drained⟩ := next_washing taken
  rw [same]
  refine ⟨fun washes => ordered.fresh (by omega), fun unwashed good => ?_, fun failed => ?_⟩
  · show O.enqueued = O.sent ++ (batches _ ++ u.SendQueue).map tells
    by_cases washed : weigh washing s = 0
    · rw [held, queue (by omega)]
      exact ordered.whole washed good
    · -- the thread that has emptied the queue was alone on the slot
      have bounded := washing_le t.pc
      have initialiser : initialising t.pc ≤ 1 := by
        unfold initialising
        cases t.pc.initialises <;> simp
      obtain still | ⟨none, same⟩ := drained (by omega)
      · omega
      have washers := weigh_le (s := s) washing_le
      have counters := weigh_le (s := s) counting_le
      have apart := sep.identified.exclusive.2
      have linked : s.SendQueue.length = s.SendQueueCount + weigh counting s := sep.linked
      rw [getCount_eq countable] at none
      have empty : s.SendQueue = [] := List.length_eq_zero_iff.mp (by omega)
      have idle : batches s = [] := by
        apply List.flatMap_eq_nil_iff.mpr
        intro x inside
        have acts := le_weigh (w := acting) inside
        by_contra holds
        have := acting_of_batch (.inl holds)
        omega
      rw [held, same, empty, idle, ordered.fresh (by omega)]
      rfl
  · obtain ⟨none, taken, sent⟩ := ordered.stopped failed
    have unwashed : weigh washing s = 0 := by
      by_contra washes
      rw [ordered.fresh (by omega)] at failed
      cases failed
    have carriers := weigh_moved carrying u pc' at_i
    have finishers := weigh_moved finishing u pc' at_i
    have finisher := le_weigh (w := finishing) member
    unfold holders at none
    obtain ⟨idle, sendIo, flag⟩ := stays (by omega) (by omega) taken
    refine ⟨?_, flag, sent⟩
    unfold holders
    show _ + u.sendIo.length + _ = 0
    omega

/-! ### A step of the slot -/

theorem holders_outside (h : step cfg s l = some s') (outside : ∀ i ans, l ≠ .thread i ans) (none : holders s = 0) : holders s' = 0 := by
  unfold holders at none
  have pending : s.sendIo.length = 0 := by omega
  have join {new : List Thread} (threads : s'.threads = s.threads ++ new) (sendIo : s'.sendIo.length = 0)
      (idle : total (fun t => carrying t.pc) new + total (fun t => finishing t.pc) new = 0) : holders s' = 0 := by
    unfold holders
    rw [weigh_join threads, weigh_join threads]
    omega
  cases l with
  | accept count sock address =>
    obtain ⟨-, rfl⟩ := step_accept h
    exact join rfl pending rfl
  | call call sessionID =>
    obtain rfl := Option.some.inj h
    exact join rfl pending rfl
  | recvCompletes j data =>
    obtain ⟨io, -, -, rfl⟩ := step_recvCompletes h
    exact join (List.append_nil _).symm pending rfl
  | recvFails j =>
    obtain ⟨io, -, rfl⟩ := step_recvFails h
    exact join (List.append_nil _).symm pending rfl
  | sendCompletes j =>
    obtain ⟨io, -, rfl⟩ := step_sendCompletes h
    exact join (List.append_nil _).symm ((List.length_set ..).trans pending) rfl
  | sendFails j =>
    obtain ⟨io, -, rfl⟩ := step_sendFails h
    exact join (List.append_nil _).symm ((List.length_set ..).trans pending) rfl
  | workRecv j =>
    obtain ⟨io, success, n, -, -, rfl⟩ := step_workRecv h
    refine join rfl pending ?_
    cases success <;> rfl
  | workSend j =>
    obtain ⟨io, success, n, at_j, -, rfl⟩ := step_workSend h
    have shorter := length_eraseIdx_add_one at_j
    omega
  | workRelease j =>
    obtain ⟨sessionID, -, rfl⟩ := step_workRelease h
    exact join rfl pending rfl
  | thread i ans => exact absurd rfl (outside i ans)

theorem Ordered.accept {count sock address : Nat} (h : step cfg s (.accept count sock address) = some s') : Ordered tells {} s' := by
  have threads := congrArg Slot.threads (step_accept h).2
  have washers := weigh_join (w := washing) threads
  refine ⟨fun _ => rfl, fun none => ?_, nofun⟩
  rw [none] at washers
  cases washers

theorem Ordered.outside (ordered : Ordered tells O s) (h : step cfg s l = some s')
    (outside : ∀ i ans, l ≠ .thread i ans) : Ordered tells (O.add tells s l) s' := by
  by_cases accepting : ∃ count sock address, l = .accept count sock address
  · obtain ⟨count, sock, address, rfl⟩ := accepting
    exact .accept h
  · have same := (Session.step_outside h outside).1
    have idle : O.add tells s l = O := by
      cases l with
      | thread i ans => exact absurd rfl (outside i ans)
      | accept count sock address => exact absurd ⟨count, sock, address, rfl⟩ accepting
      | _ => rfl
    obtain ⟨-, threads⟩ := step_elsewhere h outside fun count sock address is => accepting ⟨count, sock, address, is⟩
    obtain ⟨washers, held⟩ : weigh washing s' = weigh washing s ∧ batches s' = batches s := by
      rcases threads with still | ⟨t, more, start, uninit⟩
      · unfold weigh batches
        rw [still]
        exact ⟨rfl, rfl⟩
      · have unwashed := washing_le t.pc
        simp only [initialising, uninit, Bool.toNat_false] at unwashed
        rw [weigh_join more]
        refine ⟨by simpa [total] using unwashed, ?_⟩
        unfold batches
        rw [more, List.flatMap_append, List.flatMap_singleton, (idle_of_start start).1, List.append_nil]
    rw [idle]
    refine ⟨?_, ?_, fun failed => ?_⟩
    · rw [washers]
      exact ordered.fresh
    · rw [washers, held, same.queue.1]
      exact ordered.whole
    · obtain ⟨none, taken, sent⟩ := ordered.stopped failed
      rw [same.flag]
      exact ⟨holders_outside h outside none, taken, sent⟩

theorem Ordered.step (ordered : Ordered tells O s) (sep : Separate cfg s) (reg : Registration s) (countable : Countable cfg s) (h : step cfg s l = some s') :
    Ordered tells (O.add tells s l) s' := by
  by_cases threaded : ∃ i ans, l = .thread i ans
  · obtain ⟨i, ans, rfl⟩ := threaded
    obtain ⟨t, u, pc', at_i, taken, rfl⟩ := step_thread h
    have adds : O.add tells s (.thread i ans) = O.thread tells t ans := by simp [Outbox.add, at_i]
    rw [adds]
    by_cases carries : carrying t.pc = 1
    · exact ordered.hands_on sep reg countable at_i taken carries
    · have off : carrying t.pc = 0 := by
        have := carrying_le t.pc
        omega
      by_cases here : t.pc = .callEnqueue
      · exact ordered.enqueues sep at_i taken here
      · exact ordered.elsewhere sep countable at_i taken off here
  · exact ordered.outside h fun i ans is => threaded ⟨i, ans, is⟩

theorem Ordered.begins (ordered : Ordered tells O s) : O.sent <+: O.enqueued := by
  by_cases washes : 0 < weigh washing s
  · rewrite [ordered.fresh washes]
    exact List.nil_prefix
  · cases failed : O.failed with
    | true => exact (ordered.stopped failed).2.2
    | false =>
      rw [ordered.whole (by omega) failed]
      exact List.prefix_append ..

/-- What is told of the packets on their way may change its name. -/
theorem Ordered.congr {names : Queued → α} (ordered : Ordered tells O s) (same : ∀ q ∈ batches s ++ s.SendQueue, names q = tells q) :
    Ordered names O s := by
  refine ⟨ordered.fresh, fun unwashed good => ?_, ordered.stopped⟩
  rw [List.map_congr_left same]
  exact ordered.whole unwashed good

/-- Without a session there is nothing to enqueue or to send. -/
theorem add_idle (idle : weigh acting s = 0) (noaccept : ∀ count sock address, l ≠ .accept count sock address) :
    O.add tells s l = O := by
  cases l with
  | accept count sock address => exact absurd rfl (noaccept count sock address)
  | thread i ans =>
    cases at_i : s.threads[i]? with
    | none => simp [Outbox.add, at_i]
    | some t =>
      have own := le_weigh (w := acting) (List.mem_of_getElem? at_i)
      have none : acting t.pc = 0 := by omega
      have still : O.thread tells t ans = O := by
        obtain ⟨role, pc⟩ := t
        cases pc
        case callEnqueue | wsaSend => cases none
        all_goals rfl
      simp [Outbox.add, at_i, still]
  | _ => rfl

theorem Ordered.init (new : s.New) : Ordered tells {} s := by
  have idle : batches s = [] := by simp [batches, new.idle.1]
  refine ⟨fun _ => rfl, fun _ _ => ?_, nofun⟩
  rw [idle, new.unsent]
  rfl

/-- Each session's packets go to `WSASend` in the order of their `Enqueue`, and none is lost on the way or goes twice; once a
`WSASend` has failed, the session's later packets stay where they are. -/
theorem session_sends_in_order (run : Run (newSlot cfg) (fun s l => Few cfg s l ∧ Called cfg s l ∧ Countable cfg s) tr s) :
    (outbox tr).sent <+: (outbox tr).enqueued ∧
      ((∀ t ∈ s.threads, washing t.pc = 0) → (outbox tr).failed = false →
        (outbox tr).enqueued = (outbox tr).sent ++ (batches s ++ s.SendQueue)) ∧
      ((outbox tr).failed = true → s.sendIo = [] ∧ ∀ t ∈ s.threads, carrying t.pc = 0) := by
  have ordered : Ordered id (outbox tr) s := by
    refine run.invariant (I := fun tr s => Ordered id (outbox tr) s) (fun s new => .init new) ?_
    intro tr s l s' before ordered ⟨_, _, countable⟩ h
    obtain ⟨sep, reg⟩ := Run.registered (before.mono fun _ _ known => ⟨known.1, known.2.1⟩)
    rw [outbox_append]
    exact ordered.step sep reg countable h
  refine ⟨ordered.begins, fun none good => ?_, fun failed => ?_⟩
  · have whole := ordered.whole (total_eq_zero.mpr none) good
    rwa [List.map_id] at whole
  · have none := (ordered.stopped failed).1
    unfold holders at none
    refine ⟨List.length_eq_zero_iff.mp (by omega), fun t member => ?_⟩
    have := le_weigh (w := carrying) member
    omega

theorem second_session_sends_its_own : ∃ tr s, tr.map Prod.snd = resetThenSend ∧ (outbox tr).enqueued = [⟨200, 2⟩] ∧
    (outbox tr).enqueued = (outbox tr).sent ++ (batches s ++ s.SendQueue) := by
  have along : Along (newSlot counted) (fun s l => Few counted s l ∧ Called counted s l ∧ Countable counted s) unusedSlot
      resetThenSend := by decide +kernel
  obtain ⟨s, reached, run⟩ := Run.along (.init unusedSlot_new) along
  have calls : (outbox (trace (newSlot counted) unusedSlot resetThenSend)).enqueued = [⟨200, 2⟩] ∧
      (outbox (trace (newSlot counted) unusedSlot resetThenSend)).failed = false := by decide +kernel
  have settled : (exec (newSlot counted) unusedSlot resetThenSend).map (fun s => decide (∀ t ∈ s.threads, washing t.pc = 0)) =
      some true := by decide +kernel
  rw [reached, Option.map_some, Option.some.injEq, decide_eq_true_eq] at settled
  exact ⟨_, s, trace_labels reached, calls.1, (session_sends_in_order run).2.1 settled calls.2⟩

end WanNet.Session
