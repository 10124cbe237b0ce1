import WanNet.Session.Separation

/-!
`Disconnect` against `PostRecv` and `PostSend`: set the flag, then cancel, on one side; test the
flag, post, test again, on the other.
-/

namespace WanNet.Session
open Transition Threads

variable {cfg : Config} {s s' u : Slot} {role : Role} {ans : Answer} {pc pc' : Pc} {t : Thread} {i : Nat}

def Announced (s : Slot) : Prop := ∀ t ∈ s.threads, t.pc.initialises = false

/-- In `PostRecv` or `PostSend`, before they return or drop the reference they took. -/
def Pc.posts : Pc → Bool
  | .recvTestDisconnected | .recvTestRegistered | .recvIncrement | .wsaRecv _ _ | .recvTestCancel | .recvCancel
  | .sendCount | .sendTestDisconnected | .sendTestRegistered | .sendTakeFlag | .sendRecount | .sendGiveBack
  | .sendDequeue _ _ | .wsaSend _ | .sendTestCancel | .sendCancel => true
  | _ => false

/-- There, past the first tests of the flag. -/
def Pc.committed : Pc → Bool
  | .recvIncrement | .wsaRecv _ _ | .sendTakeFlag | .sendRecount | .sendGiveBack | .sendDequeue _ _ | .wsaSend _ => true
  | _ => false

/-- There, with an operation pending and the second test not done. -/
def Pc.checks : Pc → Bool
  | .recvTestCancel | .recvCancel | .sendTestCancel | .sendCancel => true
  | _ => false

/-- Nobody is in `Disconnect` with this ID, in `PostRecv` or in `PostSend`. -/
def Settled (sessionID : Nat) (s : Slot) : Prop :=
  ∀ t ∈ s.threads, t.pc.posts = false ∧ (t.role = .api .disconnect sessionID → t.pc = .finished)

instance : Decidable (Settled sessionID s) := inferInstanceAs (Decidable (∀ t ∈ s.threads, _))

/-- No operation on the session's socket is pending without having been cancelled. -/
def Cancelled (s : Slot) : Prop :=
  (∀ io ∈ s.recvIo, io.socket = s.Socket → io.status ≠ .pending false) ∧
    ∀ io ∈ s.sendIo, io.socket = s.Socket → io.status ≠ .pending false

def Pc.starts : Pc → Bool
  | .wsaRecv _ _ | .wsaSend _ => true
  | _ => false

def Starts (x : Slot × Label) : Prop :=
  ∃ i ans t, x.2 = .thread i ans ∧ x.1.threads[i]? = some t ∧ t.pc.starts = true

def SameSession (_ : Slot) (l : Label) : Prop := ∀ count sock address, l ≠ .accept count sock address

theorem Pc.Start.uncommitted (start : pc.Start) : pc.committed = false := by
  cases pc <;> first | rfl | cases start

theorem Pc.committed_of_starts (starts : pc.starts = true) : pc.committed = true := by
  cases pc <;> first | rfl | cases starts

theorem Pc.posts_of_committed (committed : pc.committed = true) : pc.posts = true := by
  cases pc <;> first | rfl | cases committed

theorem Pc.posts_of_checks (checks : pc.checks = true) : pc.posts = true := by
  cases pc <;> first | rfl | cases checks

/-! ### Steps of a session -/

theorem Announced.step (announced : Announced s) (same : SameSession s l) (h : step cfg s l = some s') : Announced s' := by
  by_cases threaded : ∃ i ans, l = .thread i ans
  · obtain ⟨i, ans, rfl⟩ := threaded
    obtain ⟨t, u, pc', at_i, taken, rfl⟩ := step_thread h
    intro x hx
    rcases mem_moved hx with old | rfl
    · exact announced x old
    · have fewer := (next_initialising taken).1
      have none := announced t (List.mem_of_getElem? at_i)
      simp only [initialising, none, Bool.toNat_false, Nat.le_zero] at fewer
      simpa using fewer
  · have outside (i ans) : l ≠ .thread i ans := fun is => threaded ⟨i, ans, is⟩
    intro x hx
    rcases (step_elsewhere h outside same).2 with still | ⟨t, more, -, uninit⟩
    · exact announced x (still ▸ hx)
    · rw [more] at hx
      rcases List.mem_append.mp hx with old | new
      · exact announced x old
      · rwa [List.mem_singleton.mp new]

theorem cancelIo_cancelled (s : Slot) : Cancelled (cancelIo s) := by
  constructor
  all_goals
    intro io member own
    obtain ⟨io, -, rfl⟩ := List.mem_map.mp member
    split
    · cases status : io.status <;> simp [IoStatus.cancel]
    next other =>
      rw [if_neg other] at own
      exact absurd own other

/-- With a disconnect registered, whoever posts an operation is going to cancel it, and then everything is. -/
theorem next_cancelled (h : next cfg s role ans pc = some (s', pc')) (announced : pc.initialises = false)
    (registered : s.bDisconnectRegistered = true) : s'.bDisconnectRegistered = true ∧
      (pc.committed = false → pc'.committed = false) ∧
      (pc.checks = true ∨ pc = .callCancel → pc'.checks = true ∨ Cancelled s') ∧
      (Cancelled s → pc'.checks = true ∨ Cancelled s') := by
  cases next_moves h with
  | acceptIncrement | initClearFlag | initID | initSocket | initAddress | initSendFlag | initKey | initDisconnected | initRegistered
  | initRecvBuffer | initDrained | initDrainWaits | initDrain | initDropRefs | initDropped | initRegisteredCount | acceptCount | onAccept =>
    cases announced
  | callRegister | callRegisterAndSend => exact ⟨rfl, fun _ => rfl, by simp [Pc.checks], .inr⟩
  | callCancel | recvCancel | sendCancel =>
    exact ⟨registered, fun _ => rfl, fun _ => .inr (cancelIo_cancelled s), fun _ => .inr (cancelIo_cancelled s)⟩
  | recvTestRegistered unregistered | sendTestRegistered unregistered | recvPosted unregistered | sendPosted unregistered =>
    cases registered.symm.trans unregistered
  | wsaRecv | wsaSend => exact ⟨registered, (fun uncommitted => by cases uncommitted), fun _ => .inl rfl, fun _ => .inl rfl⟩
  | wsaRecvAtOnce =>
    refine ⟨registered, fun _ => rfl, by simp [Pc.checks], fun cancelled => .inr ⟨fun io member => ?_, cancelled.2⟩⟩
    rcases List.mem_append.mp member with old | new
    · exact cancelled.1 io old
    · simp [List.mem_singleton.mp new]
  | wsaSendAtOnce =>
    refine ⟨registered, fun _ => rfl, by simp [Pc.checks], fun cancelled => .inr ⟨cancelled.1, fun io member => ?_⟩⟩
    rcases List.mem_append.mp member with old | new
    · exact cancelled.2 io old
    · simp [List.mem_singleton.mp new]
  | recvTestCancel | sendTestCancel => exact ⟨registered, fun _ => rfl, fun _ => .inl rfl, .inr⟩
  | recvIncrement | sendTakeFlag | sendRecountsNone | sendRecount | sendDequeueWaits | sendDequeue | sendIncrement =>
    exact ⟨registered, (fun uncommitted => by cases uncommitted), by simp [Pc.checks], .inr⟩
  | decDecrement again | releasePush again => cases again <;> exact ⟨registered, fun _ => rfl, by simp [Pc.checks], .inr⟩
  | _ => exact ⟨registered, fun _ => rfl, by simp [Pc.checks], .inr⟩

theorem Cancelled.outside (cancelled : Cancelled s) (h : step cfg s l = some s') (outside : ∀ i ans, l ≠ .thread i ans) :
    Cancelled s' := by
  obtain ⟨recvs, sends⟩ := cancelled
  cases l with
  | accept count sock address =>
    obtain ⟨-, rfl⟩ := step_accept h
    exact ⟨recvs, sends⟩
  | call call sessionID =>
    obtain rfl := Option.some.inj h
    exact ⟨recvs, sends⟩
  | recvCompletes j data =>
    obtain ⟨io, -, -, rfl⟩ := step_recvCompletes h
    refine ⟨fun io member => ?_, sends⟩
    rcases List.mem_or_eq_of_mem_set member with old | rfl
    · exact recvs io old
    · exact fun _ => nofun
  | recvFails j =>
    obtain ⟨io, -, rfl⟩ := step_recvFails h
    refine ⟨fun io member => ?_, sends⟩
    rcases List.mem_or_eq_of_mem_set member with old | rfl
    · exact recvs io old
    · exact fun _ => nofun
  | sendCompletes j =>
    obtain ⟨io, -, rfl⟩ := step_sendCompletes h
    refine ⟨recvs, fun io member => ?_⟩
    rcases List.mem_or_eq_of_mem_set member with old | rfl
    · exact sends io old
    · exact fun _ => nofun
  | sendFails j =>
    obtain ⟨io, -, rfl⟩ := step_sendFails h
    refine ⟨recvs, fun io member => ?_⟩
    rcases List.mem_or_eq_of_mem_set member with old | rfl
    · exact sends io old
    · exact fun _ => nofun
  | workRecv j =>
    obtain ⟨io, success, n, -, -, rfl⟩ := step_workRecv h
    exact ⟨fun io member => recvs io (List.mem_of_mem_eraseIdx member), sends⟩
  | workSend j =>
    obtain ⟨io, success, n, -, -, rfl⟩ := step_workSend h
    exact ⟨recvs, fun io member => sends io (List.mem_of_mem_eraseIdx member)⟩
  | workRelease j =>
    obtain ⟨sessionID, -, rfl⟩ := step_workRelease h
    exact ⟨recvs, sends⟩
  | thread i ans => exact absurd rfl (outside i ans)

/-- The disconnect of the `i`-th thread is about to be registered, or it is, and then every operation
is cancelled or has someone who is going to. -/
def Cancels (i sessionID : Nat) (s : Slot) : Prop :=
  s.threads[i]? = some ⟨.api .disconnect sessionID, .callRegister⟩ ∨ s.bDisconnectRegistered = true ∧
    (s.threads[i]? = some ⟨.api .disconnect sessionID, .callCancel⟩ ∨ (∃ t ∈ s.threads, t.pc.checks = true) ∨ Cancelled s)

theorem Cancels.step_outside (cancels : Cancels i sessionID s) (h : step cfg s l = some s')
    (outside : ∀ i ans, l ≠ .thread i ans) : Cancels i sessionID s' := by
  obtain ⟨same, threads⟩ := Session.step_outside h outside
  have still {t : Thread} (at_i : s.threads[i]? = some t) : s'.threads[i]? = some t := by
    rcases threads with is | ⟨x, more, -⟩
    · rwa [is]
    · rw [more, List.getElem?_append_left (List.getElem?_eq_some_iff.mp at_i).1, at_i]
  rcases cancels with registers | ⟨registered, cancels | ⟨t, member, checks⟩ | cancelled⟩
  · exact .inl (still registers)
  all_goals refine .inr ⟨same.registered.trans registered, ?_⟩
  · exact .inl (still cancels)
  · refine .inr (.inl ⟨t, ?_, checks⟩)
    rcases threads with is | ⟨x, more, -⟩
    · rwa [is]
    · rw [more]
      exact List.mem_append_left _ member
  · exact .inr (.inr (cancelled.outside h outside))

theorem Cancels.step_move (cancels : Cancels i sessionID s) (announced : Announced s)
    (h : step cfg s (.thread j ans) = some s') : Cancels i sessionID s' := by
  obtain ⟨t, u, pc', at_j, taken, rfl⟩ := step_thread h
  have lt := (List.getElem?_eq_some_iff.mp at_j).1
  have put : (⟨t.role, pc'⟩ : Thread) ∈ (s.moved u j t pc').threads := List.mem_set lt _
  have still {x : Thread} (at_i : s.threads[i]? = some x) (apart : i ≠ j) : (s.moved u j t pc').threads[i]? = some x := by
    show (s.threads.set j _)[i]? = some x
    rw [List.getElem?_set_ne (Ne.symm apart), at_i]
  rcases cancels with registers | ⟨registered, cancels⟩
  · by_cases here : i = j
    · subst here
      obtain rfl := Option.some.inj (registers.symm.trans at_j)
      cases taken
      exact .inr ⟨rfl, .inl (List.getElem?_set_self lt)⟩
    · exact .inl (still registers here)
  obtain ⟨registered', -, own, others⟩ := next_cancelled taken (announced t (List.mem_of_getElem? at_j)) registered
  have posted (after : pc'.checks = true ∨ Cancelled u) : Cancels i sessionID (s.moved u j t pc') :=
    .inr ⟨registered', .inr (after.imp (fun checks => ⟨_, put, checks⟩) id)⟩
  rcases cancels with cancels | ⟨x, member, checks⟩ | cancelled
  · by_cases here : i = j
    · subst here
      obtain rfl := Option.some.inj (cancels.symm.trans at_j)
      exact posted (own (.inr rfl))
    · exact .inr ⟨registered', .inl (still cancels here)⟩
  · obtain ⟨k, at_k⟩ := List.mem_iff_getElem?.mp member
    by_cases here : k = j
    · subst here
      obtain rfl := Option.some.inj (at_k.symm.trans at_j)
      exact posted (own (.inl checks))
    · refine .inr ⟨registered', .inr (.inl ⟨x, List.mem_of_getElem? (i := k) ?_, checks⟩)⟩
      show (s.threads.set j _)[k]? = some x
      rw [List.getElem?_set_ne (Ne.symm here), at_k]
  · exact posted (others cancelled)

theorem Run.cancels {S : System Slot Label} (steps : S.step = step cfg)
    (start : ∀ s, S.init s → Announced s ∧ Cancels i sessionID s) (run : Run S SameSession tr s) :
    Announced s ∧ Cancels i sessionID s := by
  refine run.invariant_state (I := fun s => Announced s ∧ Cancels i sessionID s) start ?_
  rintro s l s' ⟨announced, cancels⟩ same h
  rw [steps] at h
  refine ⟨announced.step same h, ?_⟩
  by_cases threaded : ∃ j ans, l = .thread j ans
  · obtain ⟨j, ans, rfl⟩ := threaded
    exact cancels.step_move announced h
  · exact cancels.step_outside h fun j ans is => threaded ⟨j, ans, is⟩

/-- A disconnect is registered, and nobody who missed it is on the way to an operation. -/
structure Closed (s : Slot) : Prop where
  announced : Announced s
  registered : s.bDisconnectRegistered = true
  uncommitted : ∀ t ∈ s.threads, t.pc.committed = false

theorem Closed.step (closed : Closed s) (same : SameSession s l) (h : step cfg s l = some s') : Closed s' := by
  have announced := closed.announced.step same h
  by_cases threaded : ∃ i ans, l = .thread i ans
  · obtain ⟨i, ans, rfl⟩ := threaded
    obtain ⟨t, u, pc', at_i, taken, rfl⟩ := step_thread h
    have member := List.mem_of_getElem? at_i
    obtain ⟨registered, uncommitted, -⟩ := next_cancelled taken (closed.announced t member) closed.registered
    refine ⟨announced, registered, fun x hx => ?_⟩
    rcases mem_moved hx with old | rfl
    · exact closed.uncommitted x old
    · exact uncommitted (closed.uncommitted t member)
  · have outside (i ans) : l ≠ .thread i ans := fun is => threaded ⟨i, ans, is⟩
    obtain ⟨kept, threads⟩ := Session.step_outside h outside
    refine ⟨announced, kept.registered.trans closed.registered, fun x hx => ?_⟩
    rcases threads with still | ⟨t, more, start⟩
    · exact closed.uncommitted x (still ▸ hx)
    · rw [more] at hx
      rcases List.mem_append.mp hx with old | new
      · exact closed.uncommitted x old
      · obtain rfl := List.mem_singleton.mp new
        exact start.uncommitted

theorem Run.starts_nothing {S : System Slot Label} (steps : S.step = step cfg) (start : ∀ s, S.init s → Closed s)
    (run : Run S SameSession tr s) : ∀ x ∈ tr, ¬ Starts x := by
  rintro ⟨v, l⟩ member ⟨i, ans, t, -, at_i, starts⟩
  obtain ⟨_, _, before, -⟩ := run.mem member
  have closed : Closed v := before.invariant_state start fun s l s' closed same h => closed.step same (steps ▸ h)
  have uncommitted := closed.uncommitted t (List.mem_of_getElem? at_i)
  rw [Pc.committed_of_starts starts] at uncommitted
  cases uncommitted

/-- A `Disconnect` that passed its guard in an announced session leaves none of the session's
operations pending uncancelled, as soon as nobody is in `Disconnect`, `PostRecv` or `PostSend`, and
no new one is started until the slot is accepted into again. -/
theorem disconnect_leaves_nothing_pending (run : Run (slot cfg) Free (before ++ (u, .thread i ans) :: after) s)
    (at_i : u.threads[i]? = some ⟨.api .disconnect sessionID, .callTestID⟩) (found : u.ID = sessionID)
    (announced : Announced u) (same : ∀ x ∈ after, SameSession x.1 x.2) (settled : Settled sessionID s) :
    Cancelled s ∧ ∀ more s', Run ((slot cfg).from s) SameSession more s' → ∀ x ∈ more, ¬ Starts x := by
  rw [← List.singleton_append, ← List.append_assoc] at run
  obtain ⟨v, passes, later⟩ := run.split
  have taken : step cfg u (.thread i ans) = some v := passes.last.2.2
  have registers : Cancels i sessionID v := by
    obtain ⟨t, w, pc', at_i', test, rfl⟩ := step_thread taken
    obtain rfl := Option.some.inj (at_i.symm.trans at_i')
    simp only [next, found, ne_eq, not_true_eq_false, if_false] at test
    cases test
    exact .inl (List.getElem?_set_self (List.getElem?_eq_some_iff.mp at_i).1)
  obtain ⟨announced, cancels⟩ := Run.cancels rfl
    (fun w is => by
      obtain rfl : w = v := is
      exact ⟨announced.step (by rintro _ _ _ ⟨⟩) taken, registers⟩)
    ((later.restrict same).mono fun _ _ both => both.2)
  have outside (t) (member : t ∈ s.threads) : ¬ t.pc.posts = true := by
    rw [(settled t member).1]
    exact Bool.false_ne_true
  have uncommitted (t) (member : t ∈ s.threads) : t.pc.committed = false :=
    Bool.eq_false_of_not_eq_true fun committed => outside t member (Pc.posts_of_committed committed)
  rcases cancels with registers | ⟨registered, cancels⟩
  · have done := (settled _ (List.mem_of_getElem? registers)).2 rfl
    cases done
  refine ⟨?_, fun more s' run => Run.starts_nothing rfl (fun w is => ?_) run⟩
  · rcases cancels with cancels | ⟨t, member, checks⟩ | cancelled
    · have done := (settled _ (List.mem_of_getElem? cancels)).2 rfl
      cases done
    · exact absurd (Pc.posts_of_checks checks) (outside t member)
    · exact cancelled
  · obtain rfl : w = s := is
    exact ⟨announced, registered, uncommitted⟩

/-- A worker has passed the tests of `PostRecv` when a `Disconnect` comes to its guard. -/
def lateDisconnect : List Label := acceptRound 1 7 9 0 ++ .thread 0 .pending :: List.replicate 3 (Label.thread 0 .go) ++
  .recvCompletes 0 [0x77] :: .workRecv 0 :: List.replicate 5 (Label.thread 1 .go) ++
  .call .disconnect 1 :: List.replicate 3 (Label.thread 2 .go)

/-- The disconnect finds nothing to cancel; the worker posts its receive, tests again and cancels it. -/
def cancelsOwnReceive : List Label := List.replicate 4 (Label.thread 2 .go) ++
  .thread 1 .go :: .thread 1 .pending :: List.replicate 4 (Label.thread 1 .go)

theorem late_disconnect_cancels_receive : ∃ tr s, Run (slot plain) Free tr s ∧
    tr.map Prod.snd = lateDisconnect ++ .thread 2 .go :: cancelsOwnReceive ∧
    s.recvIo.map RecvIo.status = [.pending true] ∧ Cancelled s ∧
    ∀ more s', Run ((slot plain).from s) SameSession more s' → ∀ x ∈ more, ¬ Starts x := by
  have along : Along (slot plain) Free unusedSlot (lateDisconnect ++ .thread 2 .go :: cancelsOwnReceive) := by decide +kernel
  obtain ⟨s, reached, run⟩ := Run.along (.init unusedSlot_fresh) along
  obtain ⟨u, earlier⟩ : ∃ u, exec (slot plain) unusedSlot lateDisconnect = some u :=
    Option.isSome_iff_exists.mp (by decide +kernel)
  have guards : (exec (slot plain) unusedSlot lateDisconnect).map (fun u => (u.threads[2]?, u.ID,
      decide (∀ t ∈ u.threads, t.pc.initialises = false))) =
      some (some ⟨.api .disconnect 1, .callTestID⟩, 1, true) := by decide +kernel
  have ends : (exec (slot plain) unusedSlot (lateDisconnect ++ .thread 2 .go :: cancelsOwnReceive)).map
      (fun s => (s.recvIo.map RecvIo.status, decide (Settled 1 s))) = some ([.pending true], true) := by decide +kernel
  rw [earlier] at guards
  rw [reached] at ends
  obtain ⟨at_two, found, announced⟩ : u.threads[2]? = some ⟨.api .disconnect 1, .callTestID⟩ ∧ u.ID = 1 ∧ Announced u := by
    simpa only [Announced, Option.map_some, Option.some.injEq, Prod.mk.injEq, decide_eq_true_eq] using guards
  obtain ⟨status, settled⟩ : s.recvIo.map RecvIo.status = [.pending true] ∧ Settled 1 s := by
    simpa only [Option.map_some, Option.some.injEq, Prod.mk.injEq, decide_eq_true_eq] using ends
  have labels := trace_labels reached
  rw [List.nil_append, trace_append earlier] at run
  rw [trace_append earlier] at labels
  refine ⟨_, s, run, labels, status, disconnect_leaves_nothing_pending run at_two found announced ?_ settled⟩
  intro x member count sock address is
  rw [List.map_append] at labels
  have label : x.2 ∈ cancelsOwnReceive := by
    have tail := (List.append_inj' labels (by simpa [trace_labels earlier] using congrArg List.length labels)).2
    have tail := List.tail_eq_of_cons_eq tail
    rw [← tail]
    exact List.mem_map_of_mem member
  simp [is, cancelsOwnReceive] at label

end WanNet.Session
