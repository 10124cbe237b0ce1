import WanNet.Server.References
import WanNet.Session.Notices

/-!
The IOCP worker threads of a server and how they tell `Shutdown`'s stop signal from the release
notices: both are completions with 0 bytes and no `OVERLAPPED`, and only the key differs.
-/

namespace WanNet.Server
open Transition Session

/-- What `iocpWorkerThread` takes a successful completion for. -/
inductive Dispatch where
  | stop
  | onRelease (sessionID : Nat)
  | io
  deriving DecidableEq

/-- The tests at the head of `iocpWorkerThread`'s loop, on the completion key and the address of the
`OVERLAPPED`. -/
def dispatch (transferredBytes session overlapped : Nat) : Dispatch :=
  if transferredBytes = 0 ∧ overlapped = 0 then
    if session = 0 then .stop else .onRelease session
  else .io

/-- A server with the threads that serve its completion port. -/
structure Workers where
  net : NetServer
  mbIsRunning : Bool := true
  mThreadCount : Nat
  /-- worker threads that have not left their loop -/
  alive : Nat
  /-- completions of `Shutdown` in the port -/
  stops : Nat := 0
  /-- bookkeeping: the release notices that workers took, with what they took them for -/
  dispatched : List (Nat × Dispatch) := []

def handling (t : Thread) : Bool := t.role == .worker && t.pc != .finished

def busy (s : NetServer) : Nat := (s.mSessionList.map fun v => v.threads.countP handling).sum

/-- A worker is at `GetQueuedCompletionStatus`. -/
def Workers.Idle (s : Workers) : Prop := busy s.net < s.alive

instance (s : Workers) : Decidable s.Idle := inferInstanceAs (Decidable (_ < _))

/-- What can happen next: something on the server that takes no completion, a worker's return from
`GetQueuedCompletionStatus`, `Shutdown`, or a worker's test of `mbIsRunning`. -/
inductive Event where
  | net (l : Label)
  | takeIo (key : Nat) (send : Bool) (j : Nat)
  | takeRelease (key j : Nat)
  | takeStop
  | shutdown
  | leave

def takeRelease (p : Params) (s : Workers) (key j : Nat) : Option Workers :=
  (s.net.mSessionList[key]?).bind fun v => (v.posted[j]?).bind fun session =>
    match dispatch 0 session 0 with
    | .stop =>
      -- the loop is left without a call of OnRelease
      some { s with
        net := s.net.put key { v with posted := v.posted.eraseIdx j }
        alive := s.alive - 1
        dispatched := s.dispatched ++ [(session, .stop)] }
    | taken =>
      (Server.step p s.net (.at key (.workRelease j))).map fun net =>
        { s with net := net, dispatched := s.dispatched ++ [(session, taken)] }

def Workers.step (p : Params) (s : Workers) : Event → Option Workers
  | .net (.at _ (.workRecv _)) | .net (.at _ (.workSend _)) | .net (.at _ (.workRelease _)) => none
  | .net l => (Server.step p s.net l).map fun net => { s with net := net }
  | .takeIo key send j =>
    if s.Idle then
      (Server.step p s.net (.at key (if send then .workSend j else .workRecv j))).map fun net => { s with net := net }
    else none
  | .takeRelease key j => if s.Idle then takeRelease p s key j else none
  | .takeStop => if s.Idle ∧ 0 < s.stops then some { s with alive := s.alive - 1, stops := s.stops - 1 } else none
  | .shutdown =>
    if s.mbIsRunning then some { s with mbIsRunning := false, stops := s.mThreadCount - 2 } else none
  | .leave => if s.Idle ∧ s.mbIsRunning = false then some { s with alive := s.alive - 1 } else none

/-- `Start` has created all threads: the monitoring and the accept thread, and the workers. -/
structure Workers.Started (s : Workers) : Prop where
  net : Server.Started s.net
  threads : s.alive = s.mThreadCount - 2
  unused : s.mbIsRunning = true ∧ s.stops = 0 ∧ s.dispatched = []

def workers (p : Params) : System Workers Event where
  init := Workers.Started
  step := Workers.step p

/-- Every release notice that was taken went to `OnRelease` with the ID in it, and no worker thread
ends before `Shutdown`. -/
def Notified (s : Workers) : Prop :=
  (∀ x ∈ s.dispatched, x.2 = .onRelease x.1) ∧ (s.mbIsRunning = true → s.alive = s.mThreadCount - 2)

/-- No client gets the slot with key 0 when the low half of the accept counter returns to 0. -/
def NoZeroID (s : Workers) : Event → Prop
  | .net (.accept _) => ∀ key ∈ s.net.mUnusedSessionKeys.head?, key = 0 → (s.net.mSessionAcceptedCount + 1) % 2 ^ 32 ≠ 0
  | _ => True

instance (s : Workers) (e : Event) : Decidable (NoZeroID s e) :=
  match e with
  | .net (.accept _) => inferInstanceAs (Decidable (∀ key ∈ s.net.mUnusedSessionKeys.head?, _ → _))
  | .net (.call _ _) | .net (.at _ _) | .takeIo _ _ _ | .takeRelease _ _ | .takeStop | .shutdown | .leave => .isTrue trivial

variable {p : Params} {s s' : Workers} {n n' : NetServer} {key j : Nat} {v v' : Slot}

/-! ### The release notices -/

def SlotsNamed (p : Params) (n : NetServer) : Prop :=
  ∀ key v, n.mSessionList[key]? = some v → Named (p.config key) v

theorem SlotsNamed.put (named : SlotsNamed p n) (here : n.mSessionList[key]? = some v) (new : Named (p.config key) v')
    (list : n'.mSessionList = n.mSessionList.set key v') : SlotsNamed p n' := by
  intro key' w at_key
  rw [list] at at_key
  rcases at_put here at_key with ⟨rfl, rfl⟩ | ⟨-, old⟩
  · exact new
  · exact named key' w old

theorem SlotsNamed.step (named : SlotsNamed p n) (h : Server.step p n l = some n')
    (nonzero : ∀ address, l = .accept address →
      ∀ key ∈ n.mUnusedSessionKeys.head?, key = 0 → (n.mSessionAcceptedCount + 1) % 2 ^ 32 ≠ 0) : SlotsNamed p n' := by
  cases l with
  | accept address =>
    obtain ⟨-, ⟨-, rfl⟩ | ⟨key, rest, v, v', stack, here, taken, rfl⟩⟩ := step_accept h
    · exact named
    · refine named.put here ((named key v here).step taken fun count sock address is => ?_) rfl
      obtain ⟨rfl, -, -⟩ := Session.Label.accept.inj is
      have low := nonzero _ rfl key (by rw [stack]; rfl)
      rw [newSessionID_eq]
      show key * 2 ^ 32 + _ ≠ 0
      omega
  | call request sessionID =>
    obtain ⟨rfl, -⟩ | ⟨call, key, v, v', -, -, here, taken, rfl⟩ := step_call h
    · exact named
    · exact named.put here ((named key v here).step taken (by simp)) rfl
  | «at» key l =>
    have noaccept (count sock address) : l ≠ .accept count sock address := by
      rintro rfl
      cases h
    obtain ⟨v, v', w, here, taken, rfl, how⟩ := step_at h
    have same : w.mSessionList = n.mSessionList := by
      obtain ⟨rfl, -⟩ | ⟨i, ans, t, -, -, rfl⟩ := how
      · rfl
      · exact (effect_same n v t.pc).1
    refine named.put here ((named key v here).step taken fun count sock address is => absurd is (noaccept count sock address)) ?_
    show w.mSessionList.set key v' = _
    rw [same]

structure Serving (p : Params) (s : Workers) : Prop where
  named : SlotsNamed p s.net
  early : s.mbIsRunning = true → s.stops = 0 ∧ s.alive = s.mThreadCount - 2
  notified : ∀ x ∈ s.dispatched, x.2 = .onRelease x.1

theorem Serving.init (started : s.Started) : Serving p s := by
  obtain ⟨-, stops, none⟩ := started.unused
  refine ⟨fun key v here => .init (started.net.slots v (List.mem_of_getElem? here)).1, fun _ => ⟨stops, started.threads⟩, ?_⟩
  simp [none]

theorem Serving.takeRelease (serving : Serving p s) (h : takeRelease p s key j = some s') : Serving p s' := by
  obtain ⟨v, here, h⟩ := Option.bind_eq_some_iff.mp h
  obtain ⟨notice, at_j, h⟩ := Option.bind_eq_some_iff.mp h
  have nonzero := (serving.named key v here).posted notice (List.mem_of_getElem? at_j)
  have goes : dispatch 0 notice 0 = .onRelease notice := by simp [dispatch, nonzero]
  simp only [goes] at h
  obtain ⟨net, taken, rfl⟩ := Option.map_eq_some_iff.mp h
  refine ⟨serving.named.step taken (by simp), serving.early, fun x held => ?_⟩
  rcases List.mem_append.mp held with old | last
  · exact serving.notified x old
  · rw [List.mem_singleton.mp last]

theorem step_net (h : Workers.step p s (.net l) = some s') :
    ∃ net, Server.step p s.net l = some net ∧ s' = { s with net := net } := by
  unfold Workers.step at h
  split at h
  next => cases h
  next => cases h
  next => cases h
  next l' _ _ _ is =>
    cases is
    obtain ⟨net, taken, rfl⟩ := Option.map_eq_some_iff.mp h
    exact ⟨net, taken, rfl⟩
  all_goals next is => cases is

theorem Serving.step (serving : Serving p s) (low : NoZeroID s e) (h : s.step p e = some s') : Serving p s' := by
  cases e with
  | net l =>
    obtain ⟨net, taken, rfl⟩ := step_net h
    refine ⟨serving.named.step taken ?_, serving.early, serving.notified⟩
    rintro address rfl
    exact low
  | takeIo key send j =>
    simp only [Workers.step] at h
    split at h
    · obtain ⟨net, taken, rfl⟩ := Option.map_eq_some_iff.mp h
      exact ⟨serving.named.step taken (by simp), serving.early, serving.notified⟩
    · cases h
  | takeRelease key j =>
    simp only [Workers.step] at h
    split at h
    · exact serving.takeRelease h
    · cases h
  | takeStop =>
    simp only [Workers.step] at h
    split at h
    next waits =>
      cases h
      refine ⟨serving.named, fun running => ?_, serving.notified⟩
      have := (serving.early running).1
      omega
    next => cases h
  | shutdown =>
    simp only [Workers.step] at h
    split at h
    next => cases h; exact ⟨serving.named, by simp, serving.notified⟩
    next => cases h
  | leave =>
    simp only [Workers.step] at h
    split at h
    next stopped =>
      cases h
      refine ⟨serving.named, fun running => ?_, serving.notified⟩
      rw [stopped.2] at running
      cases running
    next => cases h

/-- A release notice always reaches `OnRelease`, and no worker ends before `Shutdown`, where no
session is given the ID 0. -/
theorem release_notices_reach (run : Run (workers p) NoZeroID tr s) : Notified s := by
  have serving : Serving p s := run.invariant_state (I := Serving p) (fun _ => Serving.init) fun _ _ _ serving low h => serving.step low h
  exact ⟨serving.notified, fun running => (serving.early running).2⟩

def freshWorkers : Workers := { net := freshServer, mThreadCount := 3, alive := 1 }

theorem freshWorkers_started : freshWorkers.Started := ⟨freshServer_started, rfl, rfl, rfl, rfl⟩

/-- A client whose connection is reset before the first `WSARecv`. -/
def shortSession : List Answer := List.replicate 19 .go ++ .reset :: List.replicate 9 .go

def firstNotice : List Event :=
  .net (.accept 9) :: shortSession.map (fun ans => .net (.at 0 (.thread 0 ans))) ++ [.takeRelease 0 0]

theorem first_notice_reaches : ∃ tr s, tr.map Prod.snd = firstNotice ∧ Run (workers plainServer) NoZeroID tr s ∧
    s.dispatched = [(1, .onRelease 1)] ∧ Notified s := by
  have along : Along (workers plainServer) NoZeroID freshWorkers firstNotice := by decide +kernel
  obtain ⟨s, reached, run⟩ := Run.along (.init freshWorkers_started) along
  have facts : (exec (workers plainServer) freshWorkers firstNotice).map Workers.dispatched = some [(1, .onRelease 1)] := by
    decide +kernel
  rw [reached] at facts
  exact ⟨_, s, trace_labels reached, run, Option.some.inj facts, release_notices_reach run⟩

/-! ### The accept counter wraps around -/

/-- What one client after another does to the only slot. -/
def Lone (v : Slot) : Session.Label → Prop
  | .accept count sock _ => count = v.accepted + 1 ∧ sock = v.acceptedSocket + 1 ∧ v.accepted + 1 < 2 ^ 64 ∧
      ∀ t ∈ v.threads, t.pc = .finished
  | .workRelease j => (∀ notice ∈ v.posted[j]?, notice ≠ 0) ∧ ∀ t ∈ v.threads, t.pc = .finished
  | .thread _ _ => True
  | _ => False

/-- The server of that slot, its worker waiting. -/
structure Manned (v : Slot) (s : Workers) : Prop where
  single : Single v s.net
  worker : s.alive = 1 ∧ s.mThreadCount = 3 ∧ s.mbIsRunning = true

theorem Manned.idle {s : Workers} (manned : Manned v s) (done : ∀ t ∈ v.threads, t.pc = .finished) : s.Idle := by
  have none : v.threads.countP handling = 0 := by
    refine List.countP_eq_zero.mpr fun t member => ?_
    simp [handling, done t member]
  simp [Workers.Idle, busy, manned.single.list, none, manned.worker.1]

theorem Manned.step {s : Workers} {l : Session.Label} (manned : Manned v s) (lone : Lone v l)
    (h : Session.step plain v l = some v') : ∃ e s', s.step plainServer e = some s' ∧ Manned v' s' := by
  cases l with
  | accept count sock address =>
    obtain ⟨rfl, rfl, few, done⟩ := lone
    obtain ⟨net, taken, after⟩ := manned.single.accept (fun t member _ => done t member) few h
    exact ⟨.net (.accept address), { s with net := net }, by simp [Workers.step, taken], after, manned.worker⟩
  | thread i ans =>
    obtain ⟨net, taken, after⟩ := manned.single.thread h
    exact ⟨.net (.at 0 (.thread i ans)), { s with net := net }, by simp [Workers.step, taken], after, manned.worker⟩
  | workRelease j =>
    obtain ⟨nonzero, done⟩ := lone
    obtain ⟨put, after⟩ := manned.single.elsewhere h nofun nofun
    obtain ⟨notice, at_j, -⟩ := step_workRelease h
    have goes : dispatch 0 notice 0 = .onRelease notice := by simp [dispatch, nonzero notice at_j]
    have taken : Server.step plainServer s.net (.at 0 (.workRelease j)) = some (s.net.put 0 v') := put
    refine ⟨.takeRelease 0 j, { s with
        net := s.net.put 0 v', dispatched := s.dispatched ++ [(notice, .onRelease notice)] }, ?_, after, manned.worker⟩
    simp [Workers.step, manned.idle done, takeRelease, manned.single.here, at_j, goes, taken]
  | _ => exact lone.elim

/-- Nobody uses the slot, and its key is back on the stack. -/
structure Vacant (v : Slot) (n : Nat) : Prop where
  word : v.IoCount = 0 ∨ v.IoCount = releaseFlag
  drained : v.SendQueueCount = 0 ∧ v.RegisteredPacketCount = 0
  key : v.unusedKeys = 1
  accepted : v.accepted = n ∧ v.acceptedSocket = n
  done : ∀ t ∈ v.threads, t.pc = .finished

/-- `WSARecv` fails, and its `DecrementIoCount` leaves the accept thread's own count. -/
theorem reset_at_once {role : Role} (one : v.IoCount = 1) (unclosed : v.bDisconnected = false ∧ v.bDisconnectRegistered = false) :
    solo plain role (List.replicate 4 .go ++ [.reset, .go, .go]) (v, .onAcceptReturn) = some (v, .decCas false) := by
  have fails : solo plain role (List.replicate 4 .go ++ [.reset, .go]) (v, .onAcceptReturn) =
      some ({ v with IoCount := 2 }, .decDecrement true) := by
    obtain ⟨closed, registered⟩ := unclosed
    cases v
    simp only at one closed registered
    subst one closed registered
    rfl
  have back : dec32 2 = 1 := by decide
  have returns : next plain { v with IoCount := 2 } role .go (.decDecrement true) = some (v, .decCas false) := by
    rw [next_decDecrement]
    simp only [back]
    rw [if_neg Nat.one_ne_zero]
    cases v
    simp only at one
    subst one
    rfl
  show solo plain role (List.replicate 4 .go ++ [.reset, .go] ++ [.go]) _ = _
  rw [solo_append, fails]
  show (next plain { v with IoCount := 2 } role .go (.decDecrement true)).bind _ = _
  rw [returns]
  rfl

theorem releases_at_once {role : Role} (one : v.IoCount = 1) (unclosed : v.bDisconnected = false ∧ v.bDisconnectRegistered = false)
    (key : v.SessionListKey = 0) :
    solo plain role (List.replicate 4 .go ++ [.reset, .go, .go] ++ List.replicate 7 .go) (v, .onAcceptReturn) = some ({ v with
      IoCount := releaseFlag, bDisconnected := true, posted := v.posted ++ [v.ID], unusedKeys := v.unusedKeys + 1 },
      .finished) := by
  rw [solo_append, reset_at_once one unclosed]
  obtain ⟨closed, registered⟩ := unclosed
  cases v
  simp only at one closed key
  subst one closed key
  rfl

/-- A whole session in the accept thread's round. -/
theorem comes_and_goes (count sock : Nat) (word : inc32 v.IoCount &&& 0x7FFFFFFF = 1)
    (drained : v.SendQueueCount = 0 ∧ v.RegisteredPacketCount = 0) :
    solo plain (.accept count sock 9) shortSession (v, .acceptIncrement) = some ({ v with
      IoCount := releaseFlag, inits := v.inits + 1, ID := newSessionID plain count, Socket := sock, Address := 9
      bSendFlag := 0, SessionListKey := 0, bDisconnected := true, bDisconnectRegistered := false
      RecvBuffer := v.RecvBuffer.clearBuffer, RegisteredPacketCount := 0, issued := v.accepted :: v.issued
      posted := v.posted ++ [newSessionID plain count], unusedKeys := v.unusedKeys + 1 }, .finished) := by
  have initialised := reinitialises (v := { v with IoCount := inc32 v.IoCount }) count sock (by simp [drained.1]) drained.2
  simp only [word] at initialised
  have begins : solo plain (.accept count sock 9) (List.replicate 15 .go) (v, .acceptIncrement) = _ :=
    Option.bind_eq_some_iff.mpr ⟨_, rfl, initialised⟩
  have parts : shortSession = List.replicate 15 .go ++ (List.replicate 4 .go ++ [.reset, .go, .go] ++ List.replicate 7 .go) := rfl
  rw [parts, solo_append, begins, Option.bind_some]
  exact releases_at_once (v := { v with
    IoCount := 1, inits := v.inits + 1, ID := newSessionID plain count, Socket := sock, Address := 9
    bSendFlag := 0, SessionListKey := 0, bDisconnected := false, bDisconnectRegistered := false
    RecvBuffer := v.RecvBuffer.clearBuffer, RegisteredPacketCount := 0, issued := v.accepted :: v.issued }) rfl ⟨rfl, rfl⟩ rfl

theorem Vacant.revives (vacant : Vacant v count) : inc32 v.IoCount &&& 0x7FFFFFFF = 1 := by
  rcases vacant.word with zero | flag
  · rw [zero]
    decide
  · rw [flag]
    decide

theorem one_more_session (vacant : Vacant v count) (idle : v.posted = []) (few : count + 1 < 2 ^ 64) (run : Run onlySlot Lone tr v) :
    ∃ tr v', Run onlySlot Lone tr v' ∧ Vacant v' (count + 1) ∧ v'.posted = [newSessionID plain (count + 1)] := by
  have lone : Lone v (.accept (count + 1) (count + 1) 9) :=
    ⟨by rw [vacant.accepted.1], by rw [vacant.accepted.2], by rw [vacant.accepted.1]; exact few, vacant.done⟩
  have popped : onlySlot.step v (.accept (count + 1) (count + 1) 9) = some ({ v with
      unusedKeys := 0, accepted := count + 1, acceptedSocket := count + 1 }.spawn (.accept (count + 1) (count + 1) 9)
      .acceptIncrement) := by
    simp [onlySlot, Session.step, vacant.key]
  have run := run.step lone popped
  have life := exec_solo (S := onlySlot) rfl (i := v.threads.length) (t := ⟨.accept (count + 1) (count + 1) 9, .acceptIncrement⟩)
    (by simp [Slot.spawn]) (comes_and_goes (v := { v with
      unusedKeys := 0, accepted := count + 1, acceptedSocket := count + 1 }.spawn (.accept (count + 1) (count + 1) 9)
      .acceptIncrement) (count + 1) (count + 1) vacant.revives vacant.drained)
  obtain ⟨more, -, run⟩ := Run.exec run life fun u l member => by
    obtain ⟨ans, -, rfl⟩ := List.mem_map.mp member
    trivial
  refine ⟨_, _, run, ⟨.inr rfl, ⟨vacant.drained.1, rfl⟩, rfl, ⟨rfl, rfl⟩, fun t member => ?_⟩, ?_⟩
  · have member : t ∈ (v.threads ++ [(⟨.accept (count + 1) (count + 1) 9, .acceptIncrement⟩ : Thread)]).set v.threads.length
        ⟨.accept (count + 1) (count + 1) 9, .finished⟩ := member
    rw [List.set_append_right v.threads.length _ (Nat.le_refl _), Nat.sub_self, List.set_cons_zero] at member
    rcases List.mem_append.mp member with old | last
    · exact vacant.done t old
    · rw [List.mem_singleton.mp last]
  · show v.posted ++ _ = _
    rw [idle]
    rfl

/-- The worker takes the notice of that client and calls `OnRelease`. -/
theorem one_more_notice (vacant : Vacant v count) (waits : v.posted = [notice]) (nonzero : notice ≠ 0)
    (run : Run onlySlot Lone tr v) : ∃ tr v', Run onlySlot Lone tr v' ∧ Vacant v' count ∧ v'.posted = [] := by
  have lone : Lone v (.workRelease 0) := ⟨by simp [waits, nonzero], vacant.done⟩
  have taken : onlySlot.step v (.workRelease 0) = some ({ v with posted := [] }.spawn .worker (.onRelease notice)) := by
    simp [onlySlot, Session.step, waits, Slot.spawn]
  have run := run.step lone taken
  have called : onlySlot.step ({ v with posted := [] }.spawn .worker (.onRelease notice)) (.thread v.threads.length .go) =
      some { v with posted := [], threads := v.threads ++ [⟨.worker, .finished⟩] } := by
    simp [onlySlot, Session.step, Slot.spawn, next]
  have free : Lone ({ v with posted := [] }.spawn .worker (.onRelease notice)) (.thread v.threads.length .go) := trivial
  have run := run.step free called
  refine ⟨_, _, run, ⟨vacant.word, vacant.drained, vacant.key, vacant.accepted, fun t member => ?_⟩, rfl⟩
  rcases List.mem_append.mp member with old | last
  · exact vacant.done t old
  · rw [List.mem_singleton.mp last]

/-- As many clients as have IDs other than 0 come and go. -/
theorem many_sessions {count : Nat} (few : count < 2 ^ 32) :
    ∃ tr v, Run onlySlot Lone tr v ∧ Vacant v count ∧ v.posted = [] := by
  induction count with
  | zero => exact ⟨[], unusedSlot, .init rfl, ⟨.inl rfl, ⟨rfl, rfl⟩, rfl, ⟨rfl, rfl⟩, by simp [unusedSlot]⟩, rfl⟩
  | succ count ih =>
    obtain ⟨tr, v, run, vacant, idle⟩ := ih (by omega)
    obtain ⟨tr, v, run, vacant, waits⟩ := one_more_session vacant idle (by omega) run
    refine one_more_notice vacant waits ?_ run
    rw [newSessionID_eq]
    show 0 * 2 ^ 32 + (count + 1) % 2 ^ 32 ≠ 0
    omega

/-- The client that brings the low half of the counter back to 0: its release notice ends the
worker thread, and `OnRelease` is not called. -/
theorem zero_notice_ends_worker : ∃ tr s, Run (workers plainServer) Free tr s ∧ s.mbIsRunning = true ∧
    s.mThreadCount = 3 ∧ s.alive = 0 ∧ (0, .stop) ∈ s.dispatched ∧ ¬ Notified s := by
  have wraps : ∃ count, count < 2 ^ 32 ∧ (count + 1) % 2 ^ 32 = 0 ∧ count + 1 < 2 ^ 64 := ⟨2 ^ 32 - 1, by omega, by omega, by omega⟩
  obtain ⟨count, few, wrapped, counted⟩ := wraps
  obtain ⟨tr, v, run, vacant, idle⟩ := many_sessions few
  obtain ⟨tr, v, run, vacant, waits⟩ := one_more_session vacant idle counted run
  have zero : newSessionID plain (count + 1) = 0 := by
    rw [newSessionID_eq, wrapped]
    rfl
  obtain ⟨tr', s, run, manned⟩ := run.follow (T := workers plainServer) (D := Free) (R := Manned)
    (fun v start => ⟨freshWorkers, freshWorkers_started, by
      obtain rfl : v = unusedSlot := start
      exact ⟨⟨rfl, rfl, rfl, rfl, rfl⟩, rfl, rfl, rfl⟩⟩)
    fun v s l v' manned lone h => by
      obtain ⟨e, s', taken, after⟩ := manned.step lone h
      exact ⟨e, s', trivial, taken, after⟩
  have stops : (workers plainServer).step s (.takeRelease 0 0) = some { s with
      net := s.net.put 0 { v with posted := [] }
      alive := s.alive - 1
      dispatched := s.dispatched ++ [(0, .stop)] } := by
    simp [workers, Workers.step, manned.idle vacant.done, takeRelease, manned.single.here, waits, zero, dispatch]
  have taken : (0, Dispatch.stop) ∈ s.dispatched ++ [(0, .stop)] := by simp
  refine ⟨_, _, run.step trivial stops, manned.worker.2.2, manned.worker.2.1, ?_, taken, fun notified => ?_⟩
  · show s.alive - 1 = 0
    rw [manned.worker.1]
  · cases notified.1 _ taken

end WanNet.Server
