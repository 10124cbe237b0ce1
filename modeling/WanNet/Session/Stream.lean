import WanNet.Lib.Framing
import WanNet.Session.Phases

/-!
The packets of a session are delivered in the order in which their bytes came: what a session has
received is what it has delivered or dropped, and behind it what its receiver still has.
-/

namespace WanNet.Session
open Transition Threads ReleaseCount Framing

variable {cfg : Config} {s s' u : Slot} {role : Role} {ans : Answer} {pc pc' : Pc} {t : Thread} {i n : Nat} {l : Label}

/-- The bytes that have arrived for a session, and the packets handed to its `OnReceive`. -/
def received (es : List Happening) : List UInt8 :=
  es.flatMap fun
    | .received bytes => bytes
    | _ => []

def packets (es : List Happening) : List (List UInt8) :=
  es.filterMap fun
    | .receiveBegins packet => some packet
    | _ => none

/-! ### What the receiver has -/

/-- The frame that a worker has taken out of `RecvBuffer` for `OnReceive`. -/
def Pc.dequeued : Pc → List RecvByte
  | .onReceive frame => frame
  | _ => []

/-- Bytes behind `mRear`, with the worker that handles their completion. -/
def Pc.arrived (rb : RingBuffer RecvByte) : Pc → List RecvByte
  | .recvDoneMove n => cells rb.mBuffer rb.mRear n
  | _ => []

/-- Bytes behind `mRear` that no worker has picked up. -/
def RecvIo.arrived (rb : RingBuffer RecvByte) (io : RecvIo) : List RecvByte :=
  match io.status with
  | .done true n => cells rb.mBuffer rb.mRear n
  | _ => []

/-- What a receiver at this point has, in the order in which it came. -/
def holding (s : Slot) (pc : Pc) : List RecvByte :=
  pc.dequeued ++ s.RecvBuffer.contents ++ pc.arrived s.RecvBuffer ++ s.recvIo.flatMap fun io => io.arrived s.RecvBuffer

def waiting (s : Slot) : List RecvByte :=
  s.threads.flatMap (fun t => t.pc.dequeued) ++ s.RecvBuffer.contents ++
    s.threads.flatMap (fun t => t.pc.arrived s.RecvBuffer) ++ s.recvIo.flatMap fun io => io.arrived s.RecvBuffer

/-- What a step does to the bytes that wait: bytes are added behind, a packet goes first, or some are dropped. -/
def Carries (before after : List RecvByte) (e : Option Happening) : Prop :=
  match e with
  | some (.received bytes) => after.map RecvByte.byte = before.map RecvByte.byte ++ bytes
  | some (.receiveBegins packet) => before.map RecvByte.byte = packet ++ after.map RecvByte.byte
  | _ => ∃ dropped, before = dropped ++ after

/-- The bytes that wait are the last that came, and the packets were delivered in order from those before. -/
def InStream (s : Slot) (es : List Happening) : Prop :=
  ∃ gone, received es = gone ++ (waiting s).map RecvByte.byte ∧ InOrder (packets es) gone

theorem received_append (es : List Happening) (e : Option Happening) :
    received (es ++ e.toList) = received es ++ received e.toList := List.flatMap_append

theorem packets_append (es : List Happening) (e : Option Happening) :
    packets (es ++ e.toList) = packets es ++ packets e.toList := List.filterMap_append

theorem ofSession_mine (sessionID : Nat) (e : Option Happening) : ofSession sessionID (e.map fun e => (sessionID, e)) = e := by
  cases e <;> simp [ofSession]

theorem ofSession_others (apart : other ≠ sessionID) (e : Option Happening) :
    ofSession sessionID (e.map fun e => (other, e)) = none := by
  cases e <;> simp [ofSession, apart]

/-- It neither brings bytes nor delivers a packet. -/
def Silent (e : Option Happening) : Prop := ∀ bytes packet, e ≠ some (.received bytes) ∧ e ≠ some (.receiveBegins packet)

theorem silent_append (silent : Silent e) (es : List Happening) :
    packets (es ++ e.toList) = packets es ∧ received (es ++ e.toList) = received es := by
  rw [received_append, packets_append]
  rcases e with _ | ⟨_ | _ | bytes | packet | _ | _⟩
  case some.received => exact absurd rfl (silent bytes []).1
  case some.receiveBegins => exact absurd rfl (silent [] packet).2
  all_goals exact ⟨List.append_nil _, List.append_nil _⟩

theorem silent_none : Silent none := fun _ _ => ⟨by simp, by simp⟩

theorem silent_ofSession (silent : Silent (e.map Prod.snd)) (sessionID : Nat) : Silent (ofSession sessionID e) := by
  rcases e with _ | ⟨other, e⟩
  · exact silent_none
  · by_cases this : other = sessionID
    · subst this
      rw [ofSession_self]
      exact silent
    · rw [ofSession_other this]
      exact silent_none

theorem carries_same (same : after = before) (silent : Silent e) : Carries before after e := by
  rcases e with _ | ⟨_ | _ | bytes | packet | _ | _⟩
  case some.received => exact absurd rfl (silent bytes []).1
  case some.receiveBegins => exact absurd rfl (silent [] packet).2
  all_goals exact ⟨[], same.symm⟩

theorem InStream.inOrder (stream : InStream s es) : InOrder (packets es) (received es) := by
  obtain ⟨gone, is, ordered⟩ := stream
  rw [is]
  exact ordered.append _

theorem InStream.carry (stream : InStream s es) (carries : Carries (waiting s) (waiting s') e) : InStream s' (es ++ e.toList) := by
  obtain ⟨gone, is, ordered⟩ := stream
  unfold InStream
  rw [received_append, packets_append, is]
  rcases e with _ | ⟨_ | _ | bytes | packet | _ | _⟩
  case none | some.acceptBegins | some.acceptReturns | some.receiveReturns | some.releaseBegins =>
    obtain ⟨dropped, before⟩ := carries
    refine ⟨gone ++ dropped.map RecvByte.byte, ?_, ?_⟩
    · rw [before]
      simp [received]
    · simpa [packets] using ordered.append _
  case some.received =>
    have after : (waiting s').map RecvByte.byte = (waiting s).map RecvByte.byte ++ bytes := carries
    refine ⟨gone, ?_, by simpa [packets] using ordered⟩
    rw [after]
    simp [received]
  case some.receiveBegins =>
    have before : (waiting s).map RecvByte.byte = packet ++ (waiting s').map RecvByte.byte := carries
    refine ⟨gone ++ packet, ?_, ordered.snoc packet⟩
    rw [before]
    simp [received]

/-! ### The receiver's steps -/

theorem fill_arrived (io : RecvIo) {data : List UInt8} (behind : io.buf = s.RecvBuffer.mRear)
    (fits : (io.len : Int) ≤ s.RecvBuffer.getDirectEnqueueSize) (short : data.length ≤ io.len) :
    (fill s io data).RecvBuffer.contents = s.RecvBuffer.contents ∧
      (cells (fill s io data).RecvBuffer.mBuffer (fill s io data).RecvBuffer.mRear data.length).map RecvByte.byte = data := by
  refine ⟨(fill_posted io behind fits short).1, ?_⟩
  have stored : (fill s io data).RecvBuffer = s.RecvBuffer.store s.RecvBuffer.mRear (data.map fun byte => ⟨byte, io.socket⟩) := by
    rw [← behind]
    rfl
  have bytes := s.RecvBuffer.cells_store s.RecvBuffer.mRear (data.map fun byte => ⟨byte, io.socket⟩)
  rw [List.length_map] at bytes
  rw [stored]
  show (cells (s.RecvBuffer.store _ _).mBuffer s.RecvBuffer.mRear _).map _ = _
  rw [bytes, List.map_map]
  exact List.map_id _

theorem next_carries (h : next cfg s role ans pc = some (u, pc')) (receives : receiving pc = 1) (cleared : uncleared pc = 0)
    (idle : s.recvIo = []) (reading : Reading s.RecvBuffer sock pc) :
    Carries (holding s pc) (holding u pc') ((pc.happening s ans).map Prod.snd) := by
  cases next_moves h with
  | wsaRecv buf len answer =>
    rw [answer]
    exact ⟨[], by simp [holding, Pc.dequeued, Pc.arrived, RecvIo.arrived, idle]⟩
  | wsaRecvAtOnce buf len data answer short =>
    obtain ⟨rfl, fits⟩ := reading
    obtain ⟨kept, arrived⟩ := fill_arrived ⟨s.Socket, s.RecvBuffer.mRear, len, .pending false⟩ rfl fits short
    rw [answer]
    show (holding _ _).map _ = (holding _ _).map _ ++ data
    unfold holding
    simp only [Pc.dequeued, Pc.arrived, idle, List.nil_append, List.append_nil, List.flatMap_nil, List.flatMap_cons,
      List.map_append]
    exact congrArg₂ _ (congrArg _ kept) arrived
  | wsaRecvFails buf len answer =>
    rw [answer]
    exact ⟨[], by simp [holding, Pc.dequeued, Pc.arrived]⟩
  | recvDoneMove n =>
    rcases s.RecvBuffer.moveRear_contents reading.1 with appended | emptied
    · exact ⟨[], by simp [holding, Pc.dequeued, Pc.arrived, idle, appended]⟩
    · exact ⟨s.RecvBuffer.contents ++ cells s.RecvBuffer.mBuffer s.RecvBuffer.mRear n, by
        simp [holding, Pc.dequeued, Pc.arrived, idle, emptied]⟩
  | recvLoopEnds rest turn =>
    obtain ⟨dropped, taken⟩ := packetLoop_drops turn
    exact ⟨dropped, by simp [holding, Pc.dequeued, Pc.arrived, idle, taken]⟩
  | recvLoop frame rest turn => exact ⟨[], by simp [holding, Pc.dequeued, Pc.arrived, idle, packetLoop_takes turn]⟩
  | onReceive frame =>
    show (holding _ _).map _ = _ ++ (holding _ _).map _
    simp [holding, Pc.dequeued, Pc.arrived]
  | _ =>
    first
      | cases receives; done
      | cases cleared; done
      | exact ⟨[], by simp [holding, Pc.dequeued, Pc.arrived]⟩

/-! ### The slot -/

theorem empty_aside (rb : RingBuffer RecvByte) (aside : receiving pc = 0) : pc.dequeued = [] ∧ pc.arrived rb = [] := by
  cases pc <;> first | exact ⟨rfl, rfl⟩ | exact absurd aside Nat.one_ne_zero

theorem Opened.waiting_eq (opened : Opened cfg s) (at_i : s.threads[i]? = some t) (receives : receiving t.pc = 1) (u : Slot)
    (pc' : Pc) : waiting (s.moved u i t pc') = holding u pc' := by
  have others (j : Nat) (x : Thread) (apart : j ≠ i) (at_j : s.threads[j]? = some x) : receiving x.pc = 0 := by
    have two := add_le_total (w := fun t : Thread => receiving t.pc) at_i at_j apart
    have token := opened.token
    unfold weigh at token
    omega
  unfold waiting holding
  show (s.threads.set i ⟨t.role, pc'⟩).flatMap _ ++ u.RecvBuffer.contents ++ (s.threads.set i ⟨t.role, pc'⟩).flatMap _ ++
    u.recvIo.flatMap _ = _
  rw [flatMap_set_alone at_i fun j x apart at_j => (empty_aside u.RecvBuffer (others j x apart at_j)).1,
    flatMap_set_alone at_i fun j x apart at_j => (empty_aside _ (others j x apart at_j)).2]

theorem Opened.waiting_self (opened : Opened cfg s) (at_i : s.threads[i]? = some t) (receives : receiving t.pc = 1) :
    waiting s = holding s t.pc := by
  have same := opened.waiting_eq at_i receives s t.pc
  rwa [show s.moved s i t t.pc = s by simp only [Slot.moved, set_same at_i]] at same

theorem arrived_cancel (rb : RingBuffer RecvByte) (s : Slot) :
    (cancelIo s).recvIo.flatMap (fun io => io.arrived rb) = s.recvIo.flatMap fun io => io.arrived rb := by
  unfold cancelIo
  rw [List.flatMap_map]
  refine List.flatMap_congr fun io _ => ?_
  split
  · cases status : io.status <;> simp [RecvIo.arrived, status, IoStatus.cancel]
  · rfl

theorem waiting_aside (at_i : s.threads[i]? = some t) (taken : next cfg s t.role ans t.pc = some (u, pc'))
    (aside : receiving t.pc = 0) : waiting (s.moved u i t pc') = waiting s := by
  obtain ⟨buffer, -, recvIo, aside'⟩ := next_aside taken aside
  have before := empty_aside s.RecvBuffer aside
  have after := empty_aside s.RecvBuffer aside'
  unfold waiting
  show (s.threads.set i ⟨t.role, pc'⟩).flatMap _ ++ u.RecvBuffer.contents ++
    (s.threads.set i ⟨t.role, pc'⟩).flatMap (fun t => t.pc.arrived u.RecvBuffer) ++ u.recvIo.flatMap _ = _
  rw [buffer, flatMap_set_same at_i (by rw [after.1, before.1]), flatMap_set_same at_i (by rw [after.2, before.2])]
  rcases recvIo with same | cancelled
  · rw [same]
  · rw [cancelled, arrived_cancel]

/-! ### Runs of a slot -/

theorem Run.incoming (run : Run (slot cfg) (fun s l => Bounded cfg s l ∧ Numbered s l) tr s) : Incoming s := by
  refine run.invariant (I := fun _ s => Incoming s) (fun s fresh => Incoming.init fresh) fun tr s l s' before inc ⟨bounded, _⟩ h => ?_
  obtain ⟨counts, opened⟩ := Run.opened before
  exact inc.step counts opened.rounds bounded.1 h

/-- The session accepted last has its bytes in order once it is announced, and a new session starts with none. -/
structure Streaming (cfg : Config) (tr : List (Slot × Label)) (s : Slot) : Prop where
  current : s.accepted ∈ s.issued → InStream s (history (newSessionID cfg s.accepted) tr)
  cleared : 0 < weigh initialising s → weigh uncleared s = 0 → waiting s = []
  all : ∀ n < 2 ^ 32, InOrder (packets (history (newSessionID cfg n) tr)) (received (history (newSessionID cfg n) tr))

theorem settled_of_receiving (receives : receiving pc = 1) (uninit : initialising pc = 0) : 0 < settled (stage pc) := by
  cases pc <;> simp [receiving, initialising, Pc.initialises, stage] at *

/-- Only a receiver past `OnAccept` touches the stream. -/
theorem silent_happening (ans : Answer) (quiet : receiving pc = 0 ∨ initialising pc = 1) : Silent ((pc.happening s ans).map Prod.snd) := by
  cases pc
  case onAccept | onRelease => exact fun _ _ => ⟨by simp [Pc.happening], by simp [Pc.happening]⟩
  case onAcceptReturn | wsaRecv | onReceive | onReceiveReturn =>
    rcases quiet with aside | inits
    · exact absurd aside Nat.one_ne_zero
    · exact absurd inits Nat.zero_ne_one
  all_goals exact silent_none

theorem carries_silent (carries : Carries before after e) (silent : Silent e) : ∃ dropped, before = dropped ++ after := by
  rcases e with _ | ⟨_ | _ | bytes | packet | _ | _⟩
  case some.received => exact absurd rfl (silent bytes []).1
  case some.receiveBegins => exact absurd rfl (silent [] packet).2
  all_goals exact carries

theorem next_clears (h : next cfg s role ans pc = some (u, pc')) (before : uncleared pc ≠ 0) (after : uncleared pc' = 0) :
    pc' = .initDrain ∧ u.RecvBuffer.contents = [] ∧ u.recvIo = s.recvIo := by
  cases next_moves h with
  | initRecvBuffer => exact ⟨rfl, RingBuffer.clearBuffer_contents _, rfl⟩
  | _ =>
    first
      | exact absurd after Nat.one_ne_zero
      | exact absurd rfl before

theorem Streaming.silent (streaming : Streaming cfg tr s) (x : Slot × Label) (silent : Silent ((happening x.1 x.2).map Prod.snd))
    (n : Nat) (small : n < 2 ^ 32) : InOrder (packets (history (newSessionID cfg n) (tr ++ [x])))
      (received (history (newSessionID cfg n) (tr ++ [x]))) := by
  obtain ⟨packets, received⟩ := silent_append (silent_ofSession silent (newSessionID cfg n)) (history (newSessionID cfg n) tr)
  rw [history_append, packets, received]
  exact streaming.all n small

theorem Streaming.step_aside (streaming : Streaming cfg tr s) (at_i : s.threads[i]? = some t)
    (taken : next cfg s t.role ans t.pc = some (u, pc')) (aside : receiving t.pc = 0) :
    Streaming cfg (tr ++ [(s, .thread i ans)]) (s.moved u i t pc') := by
  have happens : happening s (.thread i ans) = t.pc.happening s ans := by simp [happening, at_i]
  have silent : Silent ((happening s (.thread i ans)).map Prod.snd) := by
    rw [happens]
    exact silent_happening ans (.inl aside)
  have still := waiting_aside at_i taken aside
  have aside' := (next_aside taken aside).2.2.2
  have accepted : u.accepted = s.accepted := (next_accepted taken).1
  have issued : u.issued = s.issued := by
    rcases next_announces taken with ⟨here, -⟩ | ⟨-, same, -⟩
    · rw [here] at aside
      exact absurd aside Nat.one_ne_zero
    · exact same
  have weights {w : Pc → Nat} (le : ∀ pc, w pc ≤ receiving pc) : weigh w (s.moved u i t pc') = weigh w s := by
    have changed := weigh_moved w u pc' at_i
    have before := le t.pc
    have after := le pc'
    omega
  refine ⟨fun announced => ?_, fun inits cleared => ?_, streaming.silent _ silent⟩
  · show InStream _ (history (newSessionID cfg u.accepted) _)
    have announced : u.accepted ∈ u.issued := announced
    rw [accepted, issued] at announced
    rw [accepted, history_append]
    exact (streaming.current announced).carry (carries_same still (silent_ofSession silent _))
  · rw [still]
    rw [weights initialising_le_receiving] at inits
    rw [weights fun pc => Nat.le_trans (uncleared_le pc) (initialising_le_receiving pc)] at cleared
    exact streaming.cleared inits cleared

/-- `Init` empties `RecvBuffer` before the session is announced. -/
theorem Streaming.step_init (streaming : Streaming cfg tr s) (opened : Opened cfg s) (inc : Incoming s)
    (unborn : s.accepted ∉ s.issued → history (newSessionID cfg s.accepted) tr = []) (at_i : s.threads[i]? = some t)
    (taken : next cfg s t.role ans t.pc = some (u, pc')) (inits : initialising t.pc = 1) :
    Streaming cfg (tr ++ [(s, .thread i ans)]) (s.moved u i t pc') := by
  have member := List.mem_of_getElem? at_i
  have receives : receiving t.pc = 1 := by
    have le := initialising_le_receiving t.pc
    have most := receiving_le_one t.pc
    omega
  have happens : happening s (.thread i ans) = t.pc.happening s ans := by simp [happening, at_i]
  have silent : Silent ((happening s (.thread i ans)).map Prod.snd) := by
    rw [happens]
    exact silent_happening ans (.inr inits)
  have accepted : u.accepted = s.accepted := (next_accepted taken).1
  have fresh : s.accepted ∉ s.issued := by
    have own := le_weigh (w := initialising) member
    exact opened.unissued (by omega)
  have idle := (opened.alone at_i receives initialising_le_receiving).2
  have own := le_weigh (w := initialising) member
  have alone := opened.alone at_i receives fun pc => Nat.le_trans (uncleared_le pc) (initialising_le_receiving pc)
  have empty (after : uncleared pc' = 0) : waiting (s.moved u i t pc') = [] := by
    rw [opened.waiting_eq at_i receives]
    by_cases before : uncleared t.pc = 0
    · have none := streaming.cleared (by omega) (by omega)
      rw [opened.waiting_self at_i receives] at none
      have carries := next_carries taken receives before idle (inc.threads t member)
      rw [none] at carries
      obtain ⟨dropped, nothing⟩ := carries_silent carries (silent_happening ans (.inr inits))
      exact (List.append_eq_nil_iff.mp nothing.symm).2
    · obtain ⟨rfl, contents, io⟩ := next_clears taken before after
      simp [holding, Pc.dequeued, Pc.arrived, contents, io, idle]
  refine ⟨fun announced => ?_, fun _ cleared => ?_, streaming.silent _ silent⟩
  · have announced : u.accepted ∈ u.issued := announced
    rw [accepted] at announced
    show InStream _ (history (newSessionID cfg u.accepted) _)
    rw [accepted, history_append, unborn fresh]
    rcases next_announces taken with ⟨here, there, -⟩ | ⟨-, same, -⟩
    · obtain ⟨none, none'⟩ := silent_append (silent_ofSession silent (newSessionID cfg s.accepted)) []
      have nothing : waiting (s.moved u i t pc') = [] := empty (by rw [there]; rfl)
      refine ⟨[], ?_, ?_⟩
      · rw [none', nothing]
        rfl
      · rw [none]
        trivial
    · rw [same] at announced
      exact absurd announced fresh
  · have there := le_weigh (w := uncleared) (s := s.moved u i t pc') (t := ⟨t.role, pc'⟩)
      (List.mem_set (List.getElem?_eq_some_iff.mp at_i).1 _)
    exact empty (by simp only at there; omega)

theorem Streaming.step_receiver (streaming : Streaming cfg tr s) (opened : Opened cfg s) (counts : Counts cfg s) (inc : Incoming s)
    (at_i : s.threads[i]? = some t) (taken : next cfg s t.role ans t.pc = some (u, pc')) (receives : receiving t.pc = 1)
    (uninit : initialising t.pc = 0) : Streaming cfg (tr ++ [(s, .thread i ans)]) (s.moved u i t pc') := by
  have member := List.mem_of_getElem? at_i
  have settles := settled_of_receiving receives uninit
  obtain ⟨id, announced, -⟩ := opened.receives counts at_i receives settles uninit
  have happens : happening s (.thread i ans) = t.pc.happening s ans := by simp [happening, at_i]
  have accepted : u.accepted = s.accepted := (next_accepted taken).1
  have cleared := uncleared_le t.pc
  have idle := (opened.alone at_i receives initialising_le_receiving).2
  have carries := next_carries taken receives (by omega) idle (inc.threads t member)
  have mine : happening s (.thread i ans) = ((t.pc.happening s ans).map Prod.snd).map fun e => (newSessionID cfg s.accepted, e) := by
    rw [happens]
    cases happened : t.pc.happening s ans with
    | none => rfl
    | some e =>
      rcases next_handles taken happened with here | ⟨released, here⟩ | ⟨is, -⟩
      · rw [here] at uninit
        cases uninit
      · rw [here] at receives
        cases receives
      · rw [← id, ← is]
        rfl
  have stream : InStream (s.moved u i t pc') (history (newSessionID cfg s.accepted) (tr ++ [(s, .thread i ans)])) := by
    rw [history_append, mine, ofSession_mine]
    refine (streaming.current announced).carry ?_
    rw [opened.waiting_self at_i receives, opened.waiting_eq at_i receives]
    exact carries
  refine ⟨fun _ => ?_, fun inits _ => ?_, fun n small => ?_⟩
  · show InStream _ (history (newSessionID cfg u.accepted) _)
    rw [accepted]
    exact stream
  · have changed := weigh_moved initialising u pc' at_i
    have alone := opened.alone at_i receives initialising_le_receiving
    have fewer := (next_initialising taken).1
    simp only [initialising] at *
    omega
  · by_cases current : n = s.accepted
    · rw [current]
      exact stream.inOrder
    · rw [history_append, mine, ofSession_others fun same => current ((newSessionID_eq_iff opened.range small).mp same).symm,
        Option.toList_none, List.append_nil]
      exact streaming.all n small

/-! ### The other steps -/

theorem waiting_join (same : s'.RecvBuffer = s.RecvBuffer) (threads : s'.threads = s.threads ++ [t]) (io : s'.recvIo = s.recvIo)
    (idle : t.pc.dequeued = [] ∧ t.pc.arrived s.RecvBuffer = []) : waiting s = [] ++ waiting s' := by
  unfold waiting
  rw [same, threads, io]
  simp [idle.1, idle.2]

theorem Incoming.waiting_eq (inc : Incoming s) {j : Nat} {io : RecvIo} (at_j : s.recvIo[j]? = some io) :
    waiting s = s.RecvBuffer.contents ++ io.arrived s.RecvBuffer := by
  obtain ⟨only, -, idle⟩ := inc.only at_j
  have none := List.flatMap_eq_nil_iff.mpr fun t member => (empty_aside s.RecvBuffer (idle t member)).1
  have none' := List.flatMap_eq_nil_iff.mpr fun t member => (empty_aside s.RecvBuffer (idle t member)).2
  unfold waiting
  rw [none, none', only]
  simp

/-- Nothing has arrived of a receive that is about to complete. -/
theorem recv_pending (h : step cfg s l = some s') (completes : (∃ data, l = .recvCompletes j data) ∨ l = .recvFails j) :
    ∃ io, s.recvIo[j]? = some io ∧ ∀ rb, io.arrived rb = [] := by
  rcases completes with ⟨data, rfl⟩ | rfl
  all_goals
    simp only [step] at h
    split at h
    next at_j => exact ⟨_, at_j, fun _ => rfl⟩
    next => cases h

/-- Outside the threads, bytes arrive for the session that was accepted last, or nothing changes. -/
theorem carries_outside (inc : Incoming s) (h : step cfg s l = some s') (outside : ∀ i ans, l ≠ .thread i ans) (inc' : Incoming s') :
    Carries (waiting s) (waiting s') ((happening s l).map Prod.snd) := by
  cases l with
  | accept count sock address =>
    obtain ⟨-, rfl⟩ := step_accept h
    exact ⟨[], waiting_join rfl rfl rfl ⟨rfl, rfl⟩⟩
  | call call sessionID =>
    obtain rfl := Option.some.inj h
    exact ⟨[], waiting_join rfl rfl rfl ⟨rfl, rfl⟩⟩
  | recvCompletes j data =>
    obtain ⟨io', at_j', pending⟩ := recv_pending h (.inl ⟨data, rfl⟩)
    obtain ⟨io, at_j, short, rfl⟩ := step_recvCompletes h
    obtain rfl := Option.some.inj (at_j'.symm.trans at_j)
    obtain ⟨own, behind, fits, -⟩ := inc.posted io' (List.mem_of_getElem? at_j)
    obtain ⟨kept, arrived⟩ := fill_arrived io' behind fits short
    have lt := (List.getElem?_eq_some_iff.mp at_j).1
    show (waiting _).map _ = (waiting s).map _ ++ data
    rw [inc.waiting_eq at_j, inc'.waiting_eq (List.getElem?_set_self lt), pending, List.append_nil, List.map_append]
    exact congrArg₂ _ (congrArg _ kept) arrived
  | recvFails j =>
    obtain ⟨io', at_j', pending⟩ := recv_pending h (.inr rfl)
    obtain ⟨io, at_j, rfl⟩ := step_recvFails h
    obtain rfl := Option.some.inj (at_j'.symm.trans at_j)
    have lt := (List.getElem?_eq_some_iff.mp at_j).1
    refine ⟨[], ?_⟩
    rw [inc.waiting_eq at_j, inc'.waiting_eq (List.getElem?_set_self lt), pending]
    rfl
  | sendCompletes j =>
    obtain ⟨io, -, rfl⟩ := step_sendCompletes h
    exact ⟨[], rfl⟩
  | sendFails j =>
    obtain ⟨io, -, rfl⟩ := step_sendFails h
    exact ⟨[], rfl⟩
  | workRecv j =>
    obtain ⟨io, success, n, at_j, status, rfl⟩ := step_workRecv h
    obtain ⟨only, rfl, idle⟩ := inc.only at_j
    have none := List.flatMap_eq_nil_iff.mpr fun t member => (empty_aside s.RecvBuffer (idle t member)).1
    have none' := List.flatMap_eq_nil_iff.mpr fun t member => (empty_aside s.RecvBuffer (idle t member)).2
    refine ⟨[], ?_⟩
    rw [inc.waiting_eq at_j]
    unfold waiting
    rw [List.flatMap_append, List.flatMap_append, none, none', only]
    cases success <;> simp [RecvIo.arrived, status, Pc.dequeued, Pc.arrived]
  | workSend j =>
    obtain ⟨io, success, n, -, -, rfl⟩ := step_workSend h
    exact ⟨[], waiting_join rfl rfl rfl (by cases success <;> exact ⟨rfl, rfl⟩)⟩
  | workRelease j =>
    obtain ⟨sessionID, -, rfl⟩ := step_workRelease h
    exact ⟨[], waiting_join rfl rfl rfl ⟨rfl, rfl⟩⟩
  | thread i ans => exact absurd rfl (outside i ans)

theorem unborn_of_follows (unborn : follows es = some .unborn) : es = [] := by
  rcases List.eq_nil_or_concat es with rfl | ⟨so_far, e, rfl⟩
  · rfl
  · rw [List.concat_eq_append, follows_append_one] at unborn
    obtain ⟨p, -, after⟩ := Option.bind_eq_some_iff.mp unborn
    cases p <;> cases e <;> cases after

theorem Streaming.step_outside (streaming : Streaming cfg tr s) (opened : Opened cfg s) (counts : Counts cfg s) (inc : Incoming s)
    (inc' : Incoming s') (numbered : Numbered s l) (h : step cfg s l = some s') (outside : ∀ i ans, l ≠ .thread i ans) :
    Streaming cfg (tr ++ [(s, l)]) s' := by
  have same := (Session.step_outside h outside).1
  by_cases accepting : ∃ count sock address, l = .accept count sock address
  · obtain ⟨count, sock, address, rfl⟩ := accepting
    have threads := congrArg Slot.threads (step_accept h).2
    have newest : s'.accepted = count := by rw [(step_accept h).2]
    refine ⟨fun announced => ?_, fun _ cleared => ?_, streaming.silent _ silent_none⟩
    · rw [same.issued, newest] at announced
      have old := opened.past count announced
      have later := numbered.1
      omega
    · rw [weigh_join threads] at cleared
      simp [total, uncleared] at cleared
  · obtain ⟨⟨accepted, -, -⟩, threads⟩ := step_elsewhere h outside fun count sock address is => accepting ⟨count, sock, address, is⟩
    have carries := carries_outside inc h outside inc'
    have weights {w : Pc → Nat} (le : ∀ pc, w pc ≤ initialising pc) : weigh w s' = weigh w s := by
      rcases threads with still | ⟨t, more, -, uninit⟩
      · unfold weigh
        rw [still]
      · have none := le t.pc
        simp only [initialising, uninit, Bool.toNat_false] at none
        rw [weigh_join more]
        simp [total, Nat.le_zero.mp none]
    have mine : happening s l = ((happening s l).map Prod.snd).map fun e => (newSessionID cfg s.accepted, e) := by
      cases l with
      | recvCompletes j data =>
        obtain ⟨io, at_j, -, -⟩ := step_recvCompletes h
        rw [← (opened.pending_receive counts at_j).1]
        rfl
      | thread i ans => exact absurd rfl (outside i ans)
      | _ => rfl
    have quiet (unannounced : s.accepted ∉ s.issued) : Silent ((happening s l).map Prod.snd) := by
      cases l with
      | recvCompletes j data =>
        obtain ⟨io, at_j, -, -⟩ := step_recvCompletes h
        exact absurd (opened.pending_receive counts at_j).2.1 unannounced
      | thread i ans => exact absurd rfl (outside i ans)
      | _ => exact silent_none
    have stream (announced : s.accepted ∈ s.issued) : InStream s' (history (newSessionID cfg s.accepted) (tr ++ [(s, l)])) := by
      rw [history_append, mine, ofSession_mine]
      exact (streaming.current announced).carry carries
    refine ⟨fun announced => ?_, fun inits cleared => ?_, ?_⟩
    · rw [accepted] at announced ⊢
      exact stream (same.issued ▸ announced)
    · rw [weights fun _ => Nat.le_refl _] at inits
      rw [weights uncleared_le] at cleared
      rw [streaming.cleared inits cleared] at carries
      obtain ⟨dropped, nothing⟩ := carries_silent carries (quiet (opened.unissued inits))
      exact (List.append_eq_nil_iff.mp nothing.symm).2
    · by_cases announced : s.accepted ∈ s.issued
      · intro n small
        by_cases current : n = s.accepted
        · rw [current]
          exact (stream announced).inOrder
        · rw [history_append, mine, ofSession_others fun is => current ((newSessionID_eq_iff opened.range small).mp is).symm,
            Option.toList_none, List.append_nil]
          exact streaming.all n small
      · exact streaming.silent _ (quiet announced)

theorem Run.streaming (run : Run (slot cfg) (fun s l => Bounded cfg s l ∧ Numbered s l) tr s) : Streaming cfg tr s := by
  refine run.invariant (I := fun tr s => Streaming cfg tr s) (fun s fresh => ?_) fun tr s l s' before streaming ⟨bounded, numbered⟩ h => ?_
  · refine ⟨fun announced => ?_, fun inits _ => ?_, fun n _ => trivial⟩
    · simp [fresh.unused.2.2] at announced
    · simp [weigh, fresh.idle.1] at inits
  · obtain ⟨counts, opened⟩ := Run.opened before
    have inc := Run.incoming before
    have run : Run (slot cfg) (fun s l => Bounded cfg s l ∧ Numbered s l) (tr ++ [(s, l)]) s' := before.step ⟨bounded, numbered⟩ h
    have h : step cfg s l = some s' := h
    by_cases threaded : ∃ i ans, l = .thread i ans
    · obtain ⟨i, ans, rfl⟩ := threaded
      obtain ⟨t, u, pc', at_i, taken, rfl⟩ := step_thread h
      by_cases aside : receiving t.pc = 0
      · exact streaming.step_aside at_i taken aside
      · by_cases inits : initialising t.pc = 0
        · have receives := receiving_le_one t.pc
          exact streaming.step_receiver opened counts inc at_i taken (by omega) inits
        · have most := Nat.le_trans (initialising_le_receiving t.pc) (receiving_le_one t.pc)
          refine streaming.step_init opened inc (fun fresh => ?_) at_i taken (by omega)
          have unborn := Run.follows before opened.range
          rw [show phase cfg s s.accepted = .unborn from if_pos fresh] at unborn
          exact unborn_of_follows unborn
    · exact streaming.step_outside opened counts inc (Run.incoming run) numbered h fun i ans is => threaded ⟨i, ans, is⟩

end WanNet.Session
