import WanNet.Server.Isolation
import WanNet.Session.References

/-!
The reference counts of packets over a whole server: every reference that a call has taken is in a
`SendQueue`, in `RegisteredPackets`, or dropped.
-/

namespace WanNet.Server
open Transition Session

variable {p : Params} {s s' u : NetServer} {key : Nat} {v v' w : Slot} {pc pc' : Pc} {i : Nat}

/-! ### The slots of a server -/

/-- Calls use IDs that `OnAccept` was given, with fewer than 2^32 sessions accepted in between, until
they return; the 64-bit accept counter does not wrap around. -/
def InTime (p : Params) (s : NetServer) : Label → Prop
  | .accept _ => s.mSessionAcceptedCount + 1 < 2 ^ 64 ∧ ∀ key ∈ s.mUnusedSessionKeys.head?, ∀ v ∈ s.mSessionList[key]?,
      ∀ t ∈ v.threads, ∀ sessionID ∈ t.caller, Knows (p.config key) v (s.mSessionAcceptedCount + 1) sessionID
  | .call _ sessionID => ∃ key ∈ List.range s.mMaxSessionCount, ∃ v ∈ s.mSessionList[key]?,
      Knows (p.config key) v v.accepted sessionID
  | .at _ _ => True

instance : Decidable (InTime p s l) :=
  match l with
  | .accept _ => inferInstanceAs (Decidable (_ ∧ ∀ key ∈ s.mUnusedSessionKeys.head?, _))
  | .call _ _ => inferInstanceAs (Decidable (∃ key ∈ List.range s.mMaxSessionCount, _))
  | .at _ _ => .isTrue trivial

structure Slots (p : Params) (s : NetServer) : Prop where
  range : s.mMaxSessionCount < 2 ^ 32
  slots : ∀ key v, s.mSessionList[key]? = some v →
    ∃ tr, Run (slot (p.config key)) (fun v l => Few (p.config key) v l ∧ Called (p.config key) v l) tr v
  accepted : ∀ (key : Nat) (v : Slot), s.mSessionList[key]? = some v → v.accepted ≤ s.mSessionAcceptedCount

theorem Slots.init (started : Started s) : Slots p s := by
  refine ⟨started.range, fun key v here => ⟨[], .init (started.slots v (List.mem_of_getElem? here)).1⟩, fun key v here => ?_⟩
  have := (started.slots v (List.mem_of_getElem? here)).1.unused.2.1
  omega

theorem Slots.put (slots : Slots p s) (here : s.mSessionList[key]? = some v) {l : Session.Label}
    (called : Called (p.config key) v l) (taken : Session.step (p.config key) v l = some v')
    (list : s'.mSessionList = s.mSessionList.set key v') (few : ∀ v ∈ s'.mSessionList, references v < 2 ^ 31 - 1)
    (count : s.mSessionAcceptedCount ≤ s'.mSessionAcceptedCount) (accepted : v'.accepted ≤ s'.mSessionAcceptedCount) :
    Slots p s' := by
  have lt := (List.getElem?_eq_some_iff.mp here).1
  have few : references v' < 2 ^ 31 - 1 := few v' (by rw [list]; exact List.mem_set lt _)
  refine ⟨?_, fun key' w at_key => ?_, fun key' w at_key => ?_⟩
  · have length : s'.mMaxSessionCount = s.mMaxSessionCount := by simp [NetServer.mMaxSessionCount, list]
    rw [length]
    exact slots.range
  all_goals
    rw [list] at at_key
    rcases at_put here at_key with ⟨rfl, rfl⟩ | ⟨-, old⟩
  · obtain ⟨tr, run⟩ := slots.slots key' v here
    refine ⟨_, run.step ⟨fun v'' is => ?_, called⟩ taken⟩
    obtain rfl := Option.some.inj (taken.symm.trans is)
    exact few
  · exact slots.slots key' w old
  · exact accepted
  · exact Nat.le_trans (slots.accepted key' w old) count

theorem Slots.step (slots : Slots p s) (few : FewEach p s l) (in_time : InTime p s l) (h : step p s l = some s') :
    Slots p s' := by
  have fewer := few s' h
  cases l with
  | accept address =>
    obtain ⟨no_wrap, callers⟩ := in_time
    have counted : (s.mSessionAcceptedCount + 1) % 2 ^ 64 = s.mSessionAcceptedCount + 1 := Nat.mod_eq_of_lt no_wrap
    obtain ⟨-, ⟨-, rfl⟩ | ⟨key, rest, v, v', stack, here, taken, rfl⟩⟩ := step_accept h
    · exact ⟨slots.range, slots.slots, slots.accepted⟩
    · rw [counted] at *
      have before := slots.accepted key v here
      have called : Called (p.config key) v (.accept (s.mSessionAcceptedCount + 1) (s.clients + 1) address) :=
        ⟨by omega, callers key (by rw [stack]; rfl) v here⟩
      refine slots.put here called taken rfl fewer (Nat.le_succ _) ?_
      rw [(Session.step_accept taken).2]
  | call request sessionID =>
    obtain ⟨rfl, -⟩ | ⟨call, key, v, v', -, found, here, taken, rfl⟩ := step_call h
    · exact slots
    · have called : Called (p.config key) v (.call call sessionID) := by
        obtain ⟨key', -, v'', here', n, issued, rfl, near⟩ := in_time
        have here' : s.mSessionList[key']? = some v'' := here'
        rw [findSessionOrNull_of_issued here' slots.range] at found
        obtain rfl := Option.some.inj found
        obtain rfl := Option.some.inj (here.symm.trans here')
        exact ⟨n, issued, rfl, near⟩
      obtain rfl := Option.some.inj taken
      exact slots.put here called rfl rfl fewer (Nat.le_refl _) (slots.accepted key v here)
  | «at» key l =>
    have noaccept (count sock address) : l ≠ .accept count sock address := by
      rintro rfl
      cases h
    obtain ⟨v, v', w, here, taken, rfl, how⟩ := step_at h
    have called : Called (p.config key) v l := by
      cases l <;> trivial
    obtain ⟨rfl, outside⟩ | ⟨i, ans, t, rfl, at_i, rfl⟩ := how
    · obtain ⟨⟨accepted, -⟩, -⟩ := step_elsewhere taken outside noaccept
      exact slots.put here called taken rfl fewer (Nat.le_refl _) (Nat.le_trans (Nat.le_of_eq accepted) (slots.accepted key v here))
    · obtain ⟨list, count, -⟩ := effect_same s v t.pc
      obtain ⟨t', v₁, pc', at_i', advanced, is⟩ := step_thread taken
      refine slots.put here called taken ?_ fewer (Nat.le_of_eq count.symm) ?_
      · show (effect s v t.pc).mSessionList.set key v' = _
        rw [list]
      · show v'.accepted ≤ (effect s v t.pc).mSessionAcceptedCount
        rw [count, is]
        exact Nat.le_trans (Nat.le_of_eq (next_accepted advanced).1) (slots.accepted key v here)

theorem run_slots (run : Run (server p) (fun s l => FewEach p s l ∧ InTime p s l) tr s) : Slots p s :=
  run.invariant_state (I := Slots p) (fun _ => Slots.init) fun _ _ _ slots ⟨few, in_time⟩ h => slots.step few in_time h

/-! ### The calls on reference counts -/

def incrementOf (x : NetServer × Label) : Option Nat :=
  match x.2 with
  | .at key (.thread i _) => (x.1.mSessionList[key]?).bind fun v => (v.threads[i]?).bind incremented
  | _ => none

def decrementOf (p : Params) (x : NetServer × Label) : Option Nat :=
  match x.2 with
  | .at key (.thread i _) => (x.1.mSessionList[key]?).bind fun v => (v.threads[i]?).bind fun t => decremented (p.config key) v t.pc
  | _ => none

/-- The calls of `IncrementRefCount` and of `DecrementRefCount` on a packet in a run. -/
def increments (packet : Nat) (tr : List (NetServer × Label)) : Nat := (tr.filterMap incrementOf).count packet

def decrements (p : Params) (packet : Nat) (tr : List (NetServer × Label)) : Nat := (tr.filterMap (decrementOf p)).count packet

/-- The server that `Start` has just set up, its queues empty. -/
def startedServer (p : Params) : System NetServer Label where
  init s := Started s ∧ ∀ v ∈ s.mSessionList, v.SendQueue = []
  step := step p

theorem run_started (run : Run (startedServer p) C tr s) : Run (server p) C tr s :=
  run.widen (S := startedServer p) (T := server p) (fun _ started => started.1) rfl

theorem event_append (event : NetServer × Label → Option Nat) (packet : Nat) (tr : List (NetServer × Label)) (x : NetServer × Label) :
    ((tr ++ [x]).filterMap event).count packet = (tr.filterMap event).count packet + (event x).toList.count packet := by
  rw [List.filterMap_append, List.count_append]
  cases is : event x <;> simp [is]

theorem quiet_events (quiet : ∀ key i ans, l ≠ .at key (.thread i ans)) : incrementOf (s, l) = none ∧ decrementOf p (s, l) = none := by
  cases l with
  | «at» key l => cases l <;> first | exact ⟨rfl, rfl⟩ | exact absurd rfl (quiet _ _ _)
  | _ => exact ⟨rfl, rfl⟩

theorem thread_events (ans : Answer) (here : s.mSessionList[key]? = some v) {t : Thread} (at_i : v.threads[i]? = some t) :
    incrementOf (s, .at key (.thread i ans)) = incremented t ∧ decrementOf p (s, .at key (.thread i ans)) = decremented (p.config key) v t.pc := by
  simp [incrementOf, decrementOf, here, at_i]

/-- A step moves references between the slots of a server and their threads; it takes one or drops one
only where it says so. -/
theorem step_ledger (packet : Nat) (slots : Slots p s) (h : step p s l = some s') :
    Threads.total (held packet) s'.mSessionList + Threads.total (early packet) s.mSessionList +
        (decrementOf p (s, l)).toList.count packet =
      Threads.total (held packet) s.mSessionList + Threads.total (early packet) s'.mSessionList +
        (incrementOf (s, l)).toList.count packet := by
  rcases step_slots h with ⟨same, quiet⟩ | ⟨key, v, v', l', here, taken, list, ⟨outside, quiet⟩ | ⟨i, ans, rfl, rfl⟩⟩
  · obtain ⟨none, none'⟩ := quiet_events (s := s) quiet
    rw [same, none, none']
  · obtain ⟨none, none'⟩ := quiet_events (s := s) quiet
    obtain ⟨held, early⟩ := ledger_outside packet taken outside
    have holds := Threads.total_set (w := Session.held packet) (b := v') here
    have drops := Threads.total_set (w := Session.early packet) (b := v') here
    rw [list, none, none']
    simp only [Option.toList_none, List.count_nil]
    omega
  · obtain ⟨t, u, pc', at_i, advanced, rfl⟩ := step_thread taken
    obtain ⟨incs, decs⟩ := thread_events ans here at_i
    obtain ⟨_, slot_run⟩ := slots.slots key v here
    obtain ⟨sep, reg⟩ := Run.registration slot_run
    have moves := ledger_move packet sep reg at_i advanced
    have holds := Threads.total_set (w := Session.held packet) (b := v.moved u i t pc') here
    have drops := Threads.total_set (w := Session.early packet) (b := v.moved u i t pc') here
    rw [list, incs, decs]
    omega

theorem started_empty (packet : Nat) (started : (startedServer p).init s) :
    Threads.total (held packet) s.mSessionList = 0 ∧ Threads.total (early packet) s.mSessionList = 0 := by
  obtain ⟨started, empty⟩ := started
  have zero (v : Slot) (member : v ∈ s.mSessionList) : held packet v = 0 ∧ early packet v = 0 := by
    obtain ⟨fresh, unheld⟩ := started.slots v member
    have new : v.New := ⟨fresh, unheld, empty v member⟩
    simp [held, early, places, registered, new.registered, new.unsent, fresh.idle.1]
  exact ⟨Threads.total_eq_zero.mpr fun v member => (zero v member).1, Threads.total_eq_zero.mpr fun v member => (zero v member).2⟩

/-- What has been taken and not dropped is in a place, or in the hands of a thread. -/
theorem run_balance (packet : Nat) (run : Run (startedServer p) (fun s l => FewEach p s l ∧ InTime p s l) tr s) :
    increments packet tr + Threads.total (early packet) s.mSessionList =
      decrements p packet tr + Threads.total (held packet) s.mSessionList := by
  refine run.invariant (I := fun tr s => increments packet tr + Threads.total (early packet) s.mSessionList =
    decrements p packet tr + Threads.total (held packet) s.mSessionList) (fun s started => ?_) ?_
  · obtain ⟨held, early⟩ := started_empty packet started
    rw [held, early]
    rfl
  · intro tr s l s' before balance _ h
    have moves := step_ledger packet (run_slots (run_started before)) h
    unfold increments decrements at *
    rw [event_append, event_append]
    omega

/-- In every state in which no thread has references in hand, what has been taken on a packet and not
dropped is what the sessions hold; and no reference of a session is dropped under its `WSASend`. -/
theorem references_balance (run : Run (startedServer p) (fun s l => FewEach p s l ∧ InTime p s l) tr s) :
    (∀ packet, (∀ v ∈ s.mSessionList, ∀ t ∈ v.threads, t.pc.hasReferences = false) →
      increments packet tr = decrements p packet tr + (s.mSessionList.map fun v => (places v).count packet).sum) ∧
    ∀ u key i ans v t packet, (u, .at key (.thread i ans)) ∈ tr → u.mSessionList[key]? = some v →
      v.threads[i]? = some t → decremented (p.config key) v t.pc = some packet → v.sendIo = [] := by
  refine ⟨fun packet rests => ?_, fun u key i ans v t packet taken here at_i drops => ?_⟩
  · have balance := run_balance packet run
    have none : Threads.total (early packet) s.mSessionList = 0 := Threads.total_eq_zero.mpr fun v hv =>
      Threads.total_eq_zero.mpr fun t ht => by
        rw [(empty_handed (rests v hv t ht)).2]
        rfl
    have kept : Threads.total (held packet) s.mSessionList = (s.mSessionList.map fun v => (places v).count packet).sum := by
      refine congrArg List.sum (List.map_congr_left fun v hv => ?_)
      refine Nat.add_eq_left.mpr (Threads.total_eq_zero.mpr fun t ht => ?_)
      rw [(empty_handed (rests v hv t ht)).1]
      rfl
    omega
  · obtain ⟨_, _, before, -⟩ := run.mem taken
    obtain ⟨_, slot_run⟩ := (run_slots (run_started before)).slots key v here
    obtain ⟨sep, reg⟩ := Run.registration slot_run
    exact drop_after_send sep reg (List.mem_of_getElem? at_i) (drops_aside drops)

theorem freshServer_empty : (startedServer p).init freshServer := by
  refine ⟨freshServer_started, fun v member => ?_⟩
  obtain rfl := List.mem_singleton.mp member
  rfl

/-- A packet is sent twice on the first client's session; the second time it waits in `SendQueue`. -/
def samePacketTwice : List Label := firstPacket ++ .at 0 (.thread 1 .pending) :: List.replicate 3 (Label.at 0 (.thread 1 .go)) ++
  .call (.sendPacket (some 100)) 1 :: List.replicate 12 (Label.at 0 (.thread 2 .go))

theorem same_packet_counted_twice : ∃ (tr : List (NetServer × Label)) (s : NetServer), tr.map Prod.snd = samePacketTwice ∧
    s.mSessionList.map places = [[100, 100]] ∧ increments 100 tr = decrements plainServer 100 tr + 2 := by
  have along : Along (startedServer plainServer) (fun s l => FewEach plainServer s l ∧ InTime plainServer s l) freshServer
      samePacketTwice := by decide +kernel
  obtain ⟨s, reached, run⟩ := Run.along (.init freshServer_empty) along
  rw [List.nil_append] at run
  have facts : (exec (startedServer plainServer) freshServer samePacketTwice).map (fun s => (s.mSessionList.map places,
      decide (∀ v ∈ s.mSessionList, ∀ t ∈ v.threads, t.pc.hasReferences = false))) = some ([[100, 100]], true) := by
    decide +kernel
  rw [reached] at facts
  simp only [Option.map_some, Option.some.injEq, Prod.mk.injEq, decide_eq_true_eq] at facts
  obtain ⟨held, rests⟩ := facts
  refine ⟨_, s, trace_labels reached, held, ?_⟩
  have balance := (references_balance run).1 100 rests
  have sum : (s.mSessionList.map fun v => (places v).count 100).sum = 2 := by
    have counts := congrArg (fun l => (l.map (List.count 100)).sum) held
    simpa [Function.comp_def] using counts
  rw [balance, sum]

/-! ### A send that outlives its session -/

/-- A session with a receive and a send pending, and a caller in its guard. -/
def parkedSend : List Session.Label := acceptRound 1 1 9 0 ++ .thread 0 .pending :: List.replicate 3 (Session.Label.thread 0 .go) ++
  .call (.sendPacket 100) 1 :: List.replicate 13 (Session.Label.thread 1 .go) ++ .thread 1 .pending :: List.replicate 3 (Session.Label.thread 1 .go) ++
  [.call .getSessionAddress 1, .thread 2 .go]

theorem parkedSend_end (reached : exec onlySlot unusedSlot parkedSend = some v) :
    (v.IoCount = 3 ∧ v.ID = 1 ∧ v.SessionListKey = 0 ∧ v.unusedKeys = 0) ∧ (v.issued = [1] ∧ v.accepted = 1 ∧ v.acceptedSocket = 1) ∧
      (v.bDisconnected = false ∧ v.bDisconnectRegistered = false) ∧
      (v.SendQueueCount = 0 ∧ v.RegisteredPacketCount = 1 ∧ v.RegisteredPackets 0 = ⟨100, 1⟩) ∧
      v.sendIo = [⟨1, [⟨100, 1⟩], .pending false⟩] ∧ v.threads = [⟨.accept 1 1 9, .finished⟩,
        ⟨.api (.sendPacket 100) 1, .finished⟩, ⟨.api .getSessionAddress 1, .callTestDisconnected⟩] := by
  have members : (exec onlySlot unusedSlot parkedSend).map (fun v => ((v.IoCount, v.ID, v.SessionListKey, v.unusedKeys),
      (v.issued, v.accepted, v.acceptedSocket), (v.bDisconnected, v.bDisconnectRegistered))) =
      some ((3, 1, 0, 0), ([1], 1, 1), (false, false)) := by decide +kernel
  have sends : (exec onlySlot unusedSlot parkedSend).map (fun v => ((v.SendQueueCount, v.RegisteredPacketCount, v.RegisteredPackets 0),
      v.sendIo, v.threads)) = some ((0, 1, ⟨100, 1⟩), [⟨1, [⟨100, 1⟩], .pending false⟩], [⟨.accept 1 1 9, .finished⟩,
        ⟨.api (.sendPacket 100) 1, .finished⟩, ⟨.api .getSessionAddress 1, .callTestDisconnected⟩]) := by decide +kernel
  rw [reached] at members sends
  simp only [Option.map_some, Option.some.injEq, Prod.mk.injEq] at members sends
  exact ⟨members.1, members.2.1, members.2.2, sends⟩

/-- The next `Init` up to its loop over `RegisteredPackets`. -/
theorem reaches_drop (drained : v.SendQueueCount = 0) : (solo plain (.accept 2 2 9) (List.replicate 11 .go)
    (v, .acceptIncrement)).map (fun r => (r.1.RegisteredPacketCount, r.1.RegisteredPackets 0, r.1.sendIo, r.2)) =
      some (v.RegisteredPacketCount, v.RegisteredPackets 0, v.sendIo, .initDropRefs 0) := by
  cases v
  simp only at drained
  subst drained
  rfl

theorem slot_drops_under_send : ∃ (tr : List (Slot × Session.Label)) (v : Slot) (i : Nat) (role : Role), Run onlySlot Sole tr v ∧
    v.threads[i]? = some ⟨role, .initDropRefs 0⟩ ∧
    (v.RegisteredPacketCount = 1 ∧ v.RegisteredPackets 0 = ⟨100, 1⟩) ∧ v.sendIo = [⟨1, [⟨100, 1⟩], .pending false⟩] := by
  have along : Along onlySlot Sole unusedSlot parkedSend := by decide +kernel
  obtain ⟨v, reached, run⟩ := Run.along (.init rfl) along
  obtain ⟨⟨count, id, key, keys⟩, ⟨issued, accepted, sock⟩, unclosed, ⟨drained, packets⟩, sendIo, threads⟩ := parkedSend_end reached
  have known : Knows plain v v.accepted 1 := by
    rw [accepted]
    exact ⟨1, by simp [issued], rfl, by decide⟩
  obtain ⟨tr, pcs, run⟩ := crowd_releases (S := onlySlot) [_, _] rfl
    (fun _ ⟨n, issued, is, _⟩ => ⟨n, issued, is⟩) (fun _ _ => trivial) run known (by omega) id key unclosed threads
  have released : v.unusedKeys + 1 = 1 := by omega
  rw [released] at run
  obtain ⟨tr, u, run, same, sole⟩ : ∃ tr u, Run onlySlot Sole tr u ∧ (u.unusedKeys = 1 ∧ u.SendQueueCount = 0 ∧
      u.RegisteredPacketCount = 1 ∧ u.RegisteredPackets 0 = ⟨100, 1⟩ ∧ u.sendIo = [⟨1, [⟨100, 1⟩], .pending false⟩]) ∧
      Sole u (.accept 2 2 9) := by
    refine ⟨_, _, run, ⟨rfl, drained, packets.1, packets.2, sendIo⟩, ?_, ?_, ?_, fun t member accepts => ?_⟩
    · simp only
      omega
    · simp only
      omega
    · simp only
      omega
    · rcases List.mem_append.mp member with own | parked
      · obtain rfl | rfl : t = _ ∨ t = _ := by simpa using own
        · rfl
        · cases accepts
      · obtain ⟨pc, -, rfl⟩ := List.mem_map.mp parked
        cases accepts
  obtain ⟨keys, drained, packets, entry, sendIo⟩ := same
  have popped : onlySlot.step u (.accept 2 2 9) = some ({ u with unusedKeys := 0, accepted := 2, acceptedSocket := 2 }.spawn
      (.accept 2 2 9) .acceptIncrement) := by
    simp [onlySlot, Session.step, keys]
  have run := run.step sole popped
  have reaches := reaches_drop (v := { u with unusedKeys := 0, accepted := 2, acceptedSocket := 2 }.spawn
      (.accept 2 2 9) .acceptIncrement) drained
  obtain ⟨⟨w, pc⟩, there, is⟩ := Option.map_eq_some_iff.mp reaches
  obtain ⟨same_count, same_entry, same_sends, rfl⟩ : w.RegisteredPacketCount = u.RegisteredPacketCount ∧
      w.RegisteredPackets 0 = u.RegisteredPackets 0 ∧ w.sendIo = u.sendIo ∧ pc = .initDropRefs 0 := by
    simpa only [Prod.mk.injEq, Slot.spawn] using is
  have drops := exec_solo (S := onlySlot) rfl (i := u.threads.length) (t := ⟨.accept 2 2 9, .acceptIncrement⟩) (by simp [Slot.spawn]) there
  obtain ⟨more, -, run⟩ := Run.exec run drops fun v => goes v _ _
  exact ⟨_, _, u.threads.length, .accept 2 2 9, run, by simp [Slot.spawn], ⟨same_count.trans packets, same_entry.trans entry⟩,
    same_sends.trans sendIo⟩

/-- A step of the run drops a reference on a packet that a pending `WSASend` is using. -/
def DropsUnderSend (tr : List (NetServer × Label)) : Prop :=
  ∃ u key i ans v t packet, (u, .at key (.thread i ans)) ∈ tr ∧ u.mSessionList[key]? = some v ∧
    v.threads[i]? = some t ∧ decremented (plainServer.config key) v t.pc = some packet ∧
    v.sendIo = [⟨1, [⟨packet, 1⟩], .pending false⟩]

/-- Once `IoCount` has wrapped around, the next client's `Init` drops the reference on a packet that a
pending `WSASend` is using. -/
theorem crowded_server_drops_under_send : ∃ (tr : List (NetServer × Label)) (s : NetServer),
    Run (startedServer plainServer) (Obtained plainServer) tr s ∧ DropsUnderSend tr := by
  obtain ⟨_, v, i, role, run, at_i, ⟨packets, entry⟩, sendIo⟩ := slot_drops_under_send
  obtain ⟨tr, s, run, single⟩ : ∃ tr' s, Run (startedServer plainServer) (Obtained plainServer) tr' s ∧ Single v s :=
    run.follow (R := Single) (fun v start => by
      obtain rfl : v = unusedSlot := start
      exact ⟨freshServer, freshServer_empty, rfl, rfl, rfl, rfl, rfl⟩) fun v s l v' single sole h => single.step sole h
  have drops : Session.step plain v (.thread i .go) = some { v with threads := v.threads.set i ⟨role, .initDropRefs 1⟩ } := by
    simp [Session.step, at_i, next, packets]
  obtain ⟨s', dropped, -⟩ := single.thread drops
  have run : Run (startedServer plainServer) (Obtained plainServer) (tr ++ [(s, .at 0 (.thread i .go))]) s' :=
    run.step trivial dropped
  refine ⟨_, s', run, s, 0, i, .go, v, _, 100, by simp, single.here, at_i, ?_, sendIo⟩
  simp [decremented, packets, entry]

/-- A call with the ID of the client that is being accepted sends a packet before `Init` comes to `RegisteredPackets`. -/
def earlySend : List Label := .accept 9 :: List.replicate 9 (.at 0 (.thread 0 .go)) ++
  .call (.sendPacket (some 100)) 1 :: List.replicate 13 (.at 0 (.thread 1 .go)) ++ .at 0 (.thread 1 .pending) ::
  List.replicate 3 (.at 0 (.thread 0 .go))

theorem early_send_loses_packet : ∃ (tr : List (NetServer × Label)) (s : NetServer),
    Run (startedServer plainServer) (FewEach plainServer) tr s ∧ DropsUnderSend tr := by
  have along : Along (startedServer plainServer) (FewEach plainServer) freshServer earlySend := by decide +kernel
  obtain ⟨s, sent, run⟩ := Run.along (.init freshServer_empty) along
  rw [List.nil_append] at run
  have before : earlySend = earlySend.dropLast ++ [.at 0 (.thread 0 .go)] := rfl
  have facts : (exec (startedServer plainServer) freshServer earlySend.dropLast).map (fun u => (u.mSessionList[0]?).bind fun v =>
      (v.threads[0]?).map fun t => (decremented (plainServer.config 0) v t.pc, v.sendIo)) =
      some (some (some 100, [⟨1, [⟨100, 1⟩], .pending false⟩])) := by decide +kernel
  obtain ⟨u, reached, facts⟩ := Option.map_eq_some_iff.mp facts
  obtain ⟨v, here, facts⟩ := Option.bind_eq_some_iff.mp facts
  obtain ⟨t, at_0, facts⟩ := Option.map_eq_some_iff.mp facts
  obtain ⟨drops, pending⟩ : decremented (plainServer.config 0) v t.pc = _ ∧ v.sendIo = _ := by
    simpa only [Prod.mk.injEq] using facts
  refine ⟨_, s, run, u, 0, 0, .go, v, t, 100, ?_, here, at_0, drops, pending⟩
  rw [before, trace_append reached]
  simp [trace]

/-- Neither condition can go: past 2^32 references, and where calls use IDs that `OnAccept` was not given, `Init` drops
packets that a `WSASend` is using. -/
theorem packets_dropped_under_send :
    (∃ (tr : List (NetServer × Label)) (s : NetServer), Run (startedServer plainServer) (Obtained plainServer) tr s ∧ DropsUnderSend tr) ∧
      ∃ (tr : List (NetServer × Label)) (s : NetServer), Run (startedServer plainServer) (FewEach plainServer) tr s ∧ DropsUnderSend tr :=
  ⟨crowded_server_drops_under_send, early_send_loses_packet⟩

end WanNet.Server
