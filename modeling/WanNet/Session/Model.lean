import WanNet.Interlocked
import WanNet.Lib.Threads
import WanNet.Lib.Transition
import WanNet.RingBuffer.Model
import WanNet.Serializer

/-!
One element of `mSessionList` and everything that acts on it: the API calls of NetServer.cpp, the
accept thread's rounds on the slot, the workers handling its completions, and the operating system
behind `WSARecv`, `WSASend` and `CancelIoEx`. A thread's program counter names the shared access it
makes next; each `Interlocked` call, each read and each write of a shared member is one step.
-/

namespace WanNet.Session
open Transition

/-- A cell of `RecvBuffer`: the byte, and the socket it came from (which the code does not keep). -/
structure RecvByte where
  byte : UInt8
  origin : Nat
  deriving DecidableEq

/-- An entry of `SendQueue` or `RegisteredPackets`: the packet, and the session ID its caller
passed (which the code does not keep). -/
structure Queued where
  packet : Nat
  sender : Nat
  deriving DecidableEq

/-- `MAX_WSA_BUF_COUNT`. -/
def maxWsaBufCount : Nat := 10

/-! ### Received frames -/

/-- `sizeof(NetworkHeader)`, and `NETWORK_HEADER_CODE`. -/
def headerSize : Nat := 5
def headerCode : UInt8 := 0x77

/-- `header.Length`, little-endian at offset 1. -/
def headerLength (header : List RecvByte) : Nat :=
  ((header[1]?).map fun c => c.byte.toNat).getD 0 + 256 * ((header[2]?).map fun c => c.byte.toNat).getD 0

/-- How one turn of the packet loop ends: `break`, `goto DECREMENT_IO_COUNT`, `OnReceive`, or a copy
past the end of the packet's buffer. -/
inductive Turn where
  | wait
  | disconnect (rb : RingBuffer RecvByte)
  | overrun (rb : RingBuffer RecvByte)
  | deliver (frame : List RecvByte) (rb : RingBuffer RecvByte)

/-- One turn of `iocpWorkerThread`'s packet loop on a `RecvBuffer`. -/
def packetLoop (mMaxPayloadLength : Nat) (decode : List UInt8 → Bool) (rb : RingBuffer RecvByte) : Turn :=
  if rb.getUseSize < headerSize then .wait
  else
    match rb.peek headerSize with
    | none => .wait
    | some header =>
      if (header[0]?).map RecvByte.byte ≠ some headerCode then .disconnect rb
      else if headerLength header > mMaxPayloadLength then .disconnect rb
      else if rb.getUseSize < headerSize + headerLength header then
        if rb.getFreeSize ≤ 0 then .disconnect rb else .wait
      else
        match rb.dequeue (headerLength header + headerSize) with
        | none => .wait
        | some (frame, rest) =>
          -- `Dequeue` copies whatever the header says
          if Serializer.defaultSize < headerLength header then .overrun rest
          else if decode (frame.map RecvByte.byte) then .deliver frame rest
          else .disconnect rest

/-! ### The slot -/

/-- An overlapped operation between its start and the worker that handles its completion. -/
inductive IoStatus where
  | pending (cancelled : Bool)
  | done (success : Bool) (transferredBytes : Nat)
  deriving DecidableEq

structure RecvIo where
  socket : Nat
  buf : Int
  len : Nat
  status : IoStatus

structure SendIo where
  socket : Nat
  packets : List Queued
  status : IoStatus
  deriving DecidableEq

inductive Call where
  | sendPacket (packet : Nat)
  | disconnect
  | sendAndDisconnect (packet : Nat)
  | getSessionAddress
  deriving DecidableEq

/-- What a thread does on the slot: an API call, one round of the accept thread (with the value of
`++mSessionAcceptedCount`, the client's socket and address), or a completion. -/
inductive Role where
  | api (call : Call) (sessionID : Nat)
  | accept (count sock address : Nat)
  | worker
  deriving DecidableEq

/-- The next shared access. `again` in `DecrementIoCount` and its release part: `PostRecv` or
`PostSend` called it, and its caller's own `DecrementIoCount` follows. -/
inductive Pc where
  | callIncrement | callTestDisconnected | callTestRegistered | callTestID
  | callRegister | callCancel | callAddRef | callEnqueue | callCount | callAddress
  | acceptIncrement
  | initClearFlag | initID | initSocket | initAddress | initSendFlag | initKey | initDisconnected
  | initRegistered | initRecvBuffer | initDrain | initDropRefs (i : Nat) | initRegisteredCount
  | acceptCount | onAccept | onAcceptReturn
  | sendDoneTake | sendDoneDrop (count i : Nat) | sendDoneTest | sendDoneClearFlag
  | recvDoneMove (transferredBytes : Nat) | recvDoneTest (transferredBytes : Nat)
  | recvLoop | onReceive (frame : List RecvByte) | onReceiveReturn
  | recvTestDisconnected | recvTestRegistered | recvIncrement | wsaRecv (buf : Int) (len : Nat)
  | recvTestCancel | recvCancel
  | sendCount | sendTestDisconnected | sendTestRegistered | sendTakeFlag | sendRecount | sendGiveBack
  | sendDequeue (sendCount : Nat) (wsabuf : List Queued) | wsaSend (wsabuf : List Queued)
  | sendTestCancel | sendCancel
  | decCas (again : Bool) | decDecrement (again : Bool) | decIncrement (again : Bool)
  | releaseTest (again : Bool) | releaseClose (again : Bool)
  | releaseDisconnectedCount (again : Bool) | releaseSessionCount (again : Bool)
  | releasePost (again : Bool) | releasePush (again : Bool)
  | onRelease (sessionID : Nat)
  | crashed (refs : Nat) | finished
  deriving DecidableEq

structure Thread where
  role : Role
  pc : Pc
  deriving DecidableEq

/-- The members of `Session`, with what the rest of the process and the system hold of the slot. -/
structure Slot where
  ID : Nat := 0
  Socket : Nat := 0
  Address : Nat := 0
  /-- 32 bits, the highest one the release flag -/
  IoCount : Nat := 0
  bSendFlag : Nat := 0
  SessionListKey : Nat := 0
  bDisconnected : Bool := true
  bDisconnectRegistered : Bool := false
  RecvBuffer : RingBuffer RecvByte
  /-- the visible elements of `SendQueue`, and how many of them have been counted -/
  SendQueue : List Queued := []
  SendQueueCount : Nat := 0
  RegisteredPacketCount : Nat := 0
  RegisteredPackets : Nat → Queued := fun _ => ⟨0, 0⟩
  /-- operations started and not yet handled by a worker -/
  recvIo : List RecvIo := []
  sendIo : List SendIo := []
  /-- release notices in the completion port -/
  posted : List Nat := []
  /-- copies of the slot's key in `mUnusedSessionKeys` -/
  unusedKeys : Nat := 1
  /-- bookkeeping: how often `Init` cleared the release flag, the `mSessionAcceptedCount` value and
  the socket of the latest accept, and the values for which `OnAccept` was called -/
  inits : Nat := 0
  accepted : Nat := 0
  acceptedSocket : Nat := 0
  issued : List Nat := []
  threads : List Thread := []

structure Config where
  /-- the slot's index in `mSessionList` -/
  key : Nat
  mMaxPayloadLength : Nat
  /-- `Serializer::decode` -/
  decode : List UInt8 → Bool
  /-- whether `Enqueue` raises `GetCount()` in a step of its own, after the element is visible -/
  countsLater : Bool
  /-- whether `GetCount()` has the 32 bits of `mCount`; a queue in the abstract counts without bound -/
  countWraps : Bool

/-- `static_cast<int32_t>(x) < 0`. -/
def isNegative (x : Nat) : Bool := decide (2 ^ 31 ≤ x)

def releaseFlag : Nat := 0x80000000

/-- `acceptThread`'s packing of the accept counter and the slot key. -/
def newSessionID (cfg : Config) (count : Nat) : Nat := (count &&& 0xFFFFFFFF) ||| (cfg.key <<< 32)

/-- What the system answers to `WSARecv` or `WSASend`. A reset stands for every error that the code
handles; the others crash the process. -/
inductive Answer where
  | go
  | pending
  | atOnce (data : List UInt8)
  | reset

def IoStatus.cancel : IoStatus → IoStatus
  | .pending _ => .pending true
  | .done success n => .done success n

/-- `CancelIoEx(Socket, NULL)`. -/
def cancelIo (s : Slot) : Slot :=
  { s with
    recvIo := s.recvIo.map fun io => if io.socket = s.Socket then { io with status := io.status.cancel } else io
    sendIo := s.sendIo.map fun io => if io.socket = s.Socket then { io with status := io.status.cancel } else io }

/-- The system writes received bytes into the posted part of `RecvBuffer`. -/
def fill (s : Slot) (io : RecvIo) (data : List UInt8) : Slot :=
  { s with RecvBuffer := s.RecvBuffer.store io.buf (data.map fun byte => ⟨byte, io.socket⟩) }

/-- `SendQueue.GetCount()`, of as many packets as have been counted. -/
def Config.getCount (cfg : Config) (count : Nat) : Nat := if cfg.countWraps then count % 2 ^ 32 else count

def decReturn (again : Bool) : Pc := if again then .decCas false else .finished

/-- The step a thread takes at its program counter, and where it stands then. -/
def next (cfg : Config) (s : Slot) (role : Role) (ans : Answer) : Pc → Option (Slot × Pc)
  -- SendPacket, Disconnect, SendAndDisconnect, GetSessionAddress
  | .callIncrement =>
    some ({ s with IoCount := inc32 s.IoCount },
      if isNegative (inc32 s.IoCount) then .decCas false else .callTestDisconnected)
  | .callTestDisconnected => some (s, if s.bDisconnected then .decCas false else .callTestRegistered)
  | .callTestRegistered => some (s, if s.bDisconnectRegistered then .decCas false else .callTestID)
  | .callTestID =>
    match role with
    | .api call sessionID => some (s,
        if s.ID ≠ sessionID then .decCas false
        else match call with
          | .sendPacket _ => .callAddRef
          | .disconnect | .sendAndDisconnect _ => .callRegister
          | .getSessionAddress => .callAddress)
    | _ => none
  | .callRegister =>
    match role with
    | .api .disconnect _ => some ({ s with bDisconnectRegistered := true }, .callCancel)
    | .api (.sendAndDisconnect _) _ => some ({ s with bDisconnectRegistered := true }, .callAddRef)
    | _ => none
  | .callCancel => some (cancelIo s, .decCas false)
  | .callAddRef => some (s, .callEnqueue)
  | .callEnqueue =>
    match role with
    | .api (.sendPacket packet) sessionID | .api (.sendAndDisconnect packet) sessionID =>
      if cfg.countsLater then
        some ({ s with SendQueue := s.SendQueue ++ [⟨packet, sessionID⟩] }, .callCount)
      else
        some ({ s with
          SendQueue := s.SendQueue ++ [⟨packet, sessionID⟩]
          SendQueueCount := s.SendQueueCount + 1 }, .sendCount)
    | _ => none
  | .callCount => some ({ s with SendQueueCount := s.SendQueueCount + 1 }, .sendCount)
  | .callAddress => some (s, .decCas false)
  -- acceptThread, with Session::Init
  | .acceptIncrement => some ({ s with IoCount := inc32 s.IoCount }, .initClearFlag)
  | .initClearFlag =>
    some ({ s with IoCount := s.IoCount &&& 0x7FFFFFFF, inits := s.inits + 1 }, .initID)
  | .initID =>
    match role with
    | .accept count _ _ => some ({ s with ID := newSessionID cfg count }, .initSocket)
    | _ => none
  | .initSocket =>
    match role with
    | .accept _ sock _ => some ({ s with Socket := sock }, .initAddress)
    | _ => none
  | .initAddress =>
    match role with
    | .accept _ _ address => some ({ s with Address := address }, .initSendFlag)
    | _ => none
  | .initSendFlag => some ({ s with bSendFlag := 0 }, .initKey)
  | .initKey => some ({ s with SessionListKey := cfg.key }, .initDisconnected)
  | .initDisconnected => some ({ s with bDisconnected := false }, .initRegistered)
  | .initRegistered => some ({ s with bDisconnectRegistered := false }, .initRecvBuffer)
  | .initRecvBuffer => some ({ s with RecvBuffer := s.RecvBuffer.clearBuffer }, .initDrain)
  | .initDrain =>
    if cfg.getCount s.SendQueueCount = 0 then some (s, .initDropRefs 0)
    else match s.SendQueue with
      | [] => some (s, .initDrain)
      | _ :: rest => some ({ s with SendQueue := rest, SendQueueCount := s.SendQueueCount - 1 }, .initDrain)
  | .initDropRefs i =>
    some (s, if i < s.RegisteredPacketCount then .initDropRefs (i + 1) else .initRegisteredCount)
  | .initRegisteredCount => some ({ s with RegisteredPacketCount := 0 }, .acceptCount)
  | .acceptCount => some (s, .onAccept)
  | .onAccept => some ({ s with issued := s.accepted :: s.issued }, .onAcceptReturn)
  | .onAcceptReturn => some (s, .recvTestDisconnected)
  -- iocpWorkerThread, a send completion; the count is read and cleared in one step, since only the
  -- holder of bSendFlag touches it
  | .sendDoneTake => some ({ s with RegisteredPacketCount := 0 }, .sendDoneDrop s.RegisteredPacketCount 0)
  | .sendDoneDrop count i => some (s, if i < count then .sendDoneDrop count (i + 1) else .sendDoneTest)
  | .sendDoneTest => some (s, if s.bDisconnectRegistered then .decCas false else .sendDoneClearFlag)
  | .sendDoneClearFlag =>
    some ({ s with bSendFlag := 0 }, if s.bSendFlag = 1 then .sendCount else .crashed 1)
  -- iocpWorkerThread, a receive completion
  | .recvDoneMove n =>
    some ({ s with RecvBuffer := (s.RecvBuffer.moveRear n).getD s.RecvBuffer }, .recvDoneTest n)
  | .recvDoneTest n => some (s, if n = 0 ∨ s.bDisconnectRegistered then .decCas false else .recvLoop)
  | .recvLoop =>
    match packetLoop cfg.mMaxPayloadLength cfg.decode s.RecvBuffer with
    | .wait => some (s, .recvTestDisconnected)
    | .disconnect rb => some ({ s with RecvBuffer := rb }, .decCas false)
    -- nothing is known of what comes after such a copy: a run goes up to it
    | .overrun _ => none
    | .deliver frame rb => some ({ s with RecvBuffer := rb }, .onReceive frame)
  | .onReceive _ => some (s, .onReceiveReturn)
  | .onReceiveReturn => some (s, .recvLoop)
  -- Session::PostRecv
  | .recvTestDisconnected => some (s, if s.bDisconnected then .decCas false else .recvTestRegistered)
  | .recvTestRegistered => some (s, if s.bDisconnectRegistered then .decCas false else .recvIncrement)
  | .recvIncrement =>
    some ({ s with IoCount := inc32 s.IoCount },
      .wsaRecv s.RecvBuffer.mRear s.RecvBuffer.getDirectEnqueueSize.toNat)
  | .wsaRecv buf len =>
    match ans with
    | .go => none
    | .pending => some ({ s with recvIo := s.recvIo ++ [⟨s.Socket, buf, len, .pending false⟩] }, .recvTestCancel)
    | .atOnce data =>
      if data.length ≤ len then
        some ({ fill s ⟨s.Socket, buf, len, .pending false⟩ data with
          recvIo := s.recvIo ++ [⟨s.Socket, buf, len, .done true data.length⟩] }, .decCas false)
      else none
    | .reset => some (s, .decCas true)
  | .recvTestCancel => some (s, if s.bDisconnectRegistered then .recvCancel else .decCas false)
  | .recvCancel => some (cancelIo s, .decCas false)
  -- Session::PostSend
  | .sendCount => some (s, if cfg.getCount s.SendQueueCount = 0 then .decCas false else .sendTestDisconnected)
  | .sendTestDisconnected => some (s, if s.bDisconnected then .decCas false else .sendTestRegistered)
  | .sendTestRegistered => some (s, if s.bDisconnectRegistered then .decCas false else .sendTakeFlag)
  | .sendTakeFlag =>
    some ({ s with bSendFlag := 1 }, if s.bSendFlag ≠ 0 then .decCas false else .sendRecount)
  | .sendRecount =>
    some (s, if cfg.getCount s.SendQueueCount = 0 then .sendGiveBack else .sendDequeue (cfg.getCount s.SendQueueCount) [])
  | .sendGiveBack => some ({ s with bSendFlag := 0 }, if s.bSendFlag = 1 then .decCas false else .crashed 1)
  | .sendDequeue sendCount wsabuf =>
    if wsabuf.length < maxWsaBufCount ∧ sendCount ≠ 0 then
      if cfg.getCount s.SendQueueCount = 0 then some (s, .crashed 1)
      else match s.SendQueue with
        | [] => some (s, .sendDequeue sendCount wsabuf)
        | packet :: rest => some ({ s with
            SendQueue := rest
            SendQueueCount := s.SendQueueCount - 1
            RegisteredPackets := fun i => if i = s.RegisteredPacketCount then packet else s.RegisteredPackets i
            RegisteredPacketCount := s.RegisteredPacketCount + 1 },
          .sendDequeue (sendCount - 1) (wsabuf ++ [packet]))
    else some ({ s with IoCount := inc32 s.IoCount }, .wsaSend wsabuf)
  | .wsaSend wsabuf =>
    match ans with
    | .go => none
    | .pending => some ({ s with sendIo := s.sendIo ++ [⟨s.Socket, wsabuf, .pending false⟩] }, .sendTestCancel)
    | .atOnce _ => some ({ s with sendIo := s.sendIo ++ [⟨s.Socket, wsabuf, .done true 0⟩] }, .decCas false)
    | .reset => some (s, .decCas true)
  | .sendTestCancel => some (s, if s.bDisconnectRegistered then .sendCancel else .decCas false)
  | .sendCancel => some (cancelIo s, .decCas false)
  -- Session::DecrementIoCount
  | .decCas again =>
    if s.IoCount = 1 then some ({ s with IoCount := releaseFlag }, .releaseTest again)
    else some (s, .decDecrement again)
  | .decDecrement again =>
    some ({ s with IoCount := dec32 s.IoCount },
      if dec32 s.IoCount = 0 then .decIncrement again else decReturn again)
  | .decIncrement again => some ({ s with IoCount := inc32 s.IoCount }, .decCas again)
  -- its release part
  | .releaseTest again =>
    some ({ s with bDisconnected := true },
      if s.bDisconnected then .crashed (if again then 1 else 0) else .releaseClose again)
  | .releaseClose again => some (s, .releaseDisconnectedCount again)
  | .releaseDisconnectedCount again => some (s, .releaseSessionCount again)
  | .releaseSessionCount again => some (s, .releasePost again)
  | .releasePost again => some ({ s with posted := s.posted ++ [s.ID] }, .releasePush again)
  | .releasePush again =>
    some ({ s with unusedKeys := if s.SessionListKey = cfg.key then s.unusedKeys + 1 else s.unusedKeys },
      decReturn again)
  | .onRelease _ => some (s, .finished)
  | .crashed _ => none
  | .finished => none

/-- What can happen next: the accept thread pops the slot's key, a call comes in, the system
completes an operation, a worker takes a completion, or a thread takes its next step. -/
inductive Label where
  | accept (count sock address : Nat)
  | call (call : Call) (sessionID : Nat)
  | recvCompletes (j : Nat) (data : List UInt8)
  | recvFails (j : Nat)
  | sendCompletes (j : Nat)
  | sendFails (j : Nat)
  | workRecv (j : Nat)
  | workSend (j : Nat)
  | workRelease (j : Nat)
  | thread (i : Nat) (ans : Answer)

def Slot.spawn (s : Slot) (role : Role) (pc : Pc) : Slot := { s with threads := s.threads ++ [⟨role, pc⟩] }

def step (cfg : Config) (s : Slot) : Label → Option Slot
  | .accept count sock address =>
    if 0 < s.unusedKeys then
      some ({ s with unusedKeys := s.unusedKeys - 1, accepted := count, acceptedSocket := sock }.spawn
        (.accept count sock address) .acceptIncrement)
    else none
  | .call call sessionID => some (s.spawn (.api call sessionID) .callIncrement)
  | .recvCompletes j data =>
    match s.recvIo[j]? with
    | some ⟨socket, buf, len, .pending _⟩ =>
      if data.length ≤ len then
        some { fill s ⟨socket, buf, len, .pending false⟩ data with
          recvIo := s.recvIo.set j ⟨socket, buf, len, .done true data.length⟩ }
      else none
    | _ => none
  | .recvFails j =>
    match s.recvIo[j]? with
    | some ⟨socket, buf, len, .pending _⟩ =>
      some { s with recvIo := s.recvIo.set j ⟨socket, buf, len, .done false 0⟩ }
    | _ => none
  | .sendCompletes j =>
    match s.sendIo[j]? with
    | some ⟨socket, packets, .pending _⟩ =>
      some { s with sendIo := s.sendIo.set j ⟨socket, packets, .done true 0⟩ }
    | _ => none
  | .sendFails j =>
    match s.sendIo[j]? with
    | some ⟨socket, packets, .pending _⟩ =>
      some { s with sendIo := s.sendIo.set j ⟨socket, packets, .done false 0⟩ }
    | _ => none
  | .workRecv j =>
    match s.recvIo[j]? with
    | some ⟨_, _, _, .done success n⟩ =>
      some ({ s with recvIo := s.recvIo.eraseIdx j }.spawn .worker (if success then .recvDoneMove n else .decCas false))
    | _ => none
  | .workSend j =>
    match s.sendIo[j]? with
    | some ⟨_, _, .done success _⟩ =>
      some ({ s with sendIo := s.sendIo.eraseIdx j }.spawn .worker (if success then .sendDoneTake else .decCas false))
    | _ => none
  | .workRelease j =>
    match s.posted[j]? with
    | some sessionID => some ({ s with posted := s.posted.eraseIdx j }.spawn .worker (.onRelease sessionID))
    | none => none
  | .thread i ans =>
    match s.threads[i]? with
    | some t => (next cfg s t.role ans t.pc).map fun r => { r.1 with threads := s.threads.set i ⟨t.role, r.2⟩ }
    | none => none

/-- A slot that no session has used since `Start`, or one that its last session has left for good:
what that session left in the other members is arbitrary. -/
structure Slot.Fresh (s : Slot) : Prop where
  count : s.IoCount = 0 ∧ s.RegisteredPacketCount = 0 ∨ s.IoCount = releaseFlag
  disconnected : s.bDisconnected = true
  queue : s.SendQueueCount = s.SendQueue.length
  idle : s.threads = [] ∧ s.recvIo = [] ∧ s.sendIo = [] ∧ s.posted = []
  free : s.unusedKeys = 1
  unused : s.inits = 0 ∧ s.accepted = 0 ∧ s.issued = []

def slot (cfg : Config) : System Slot Label where
  init := Slot.Fresh
  step := step cfg

/-- The only slot of a server that accepts every frame up to the default length. -/
def plain : Config := ⟨0, 65535, fun _ => true, false, true⟩

def unusedSlot : Slot := { RecvBuffer := RingBuffer.new (fun _ => ⟨0, 0⟩) RingBuffer.defaultSize RingBuffer.defaultSize_range }

/-- `GetCount()` has not wrapped around; a count without bound never does. -/
def Countable (cfg : Config) (s : Slot) : Prop := cfg.countWraps = true → s.SendQueueCount < 2 ^ 32

instance : Decidable (Countable cfg s) := inferInstanceAs (Decidable (_ = true → _))

theorem getCount_eq (countable : Countable cfg s) : cfg.getCount s.SendQueueCount = s.SendQueueCount := by
  unfold Config.getCount
  split
  · next wraps => exact Nat.mod_eq_of_lt (countable wraps)
  · rfl

@[simp] theorem getCount_zero (cfg : Config) : cfg.getCount 0 = 0 := by
  unfold Config.getCount
  split <;> rfl

theorem countable_of_exact (exact_count : cfg.countWraps = false) : Countable cfg s :=
  fun wraps => by rw [exact_count] at wraps; cases wraps

theorem getCount_le (cfg : Config) (count : Nat) : cfg.getCount count ≤ count := by
  unfold Config.getCount
  split
  · exact Nat.mod_le _ _
  · exact Nat.le_refl _

theorem unusedSlot_fresh : unusedSlot.Fresh :=
  ⟨.inl ⟨rfl, rfl⟩, rfl, rfl, ⟨rfl, rfl, rfl, rfl⟩, rfl, rfl, rfl, rfl⟩

/-- One round of the accept thread, up to its first `WSARecv`, which is thread `i`. -/
def acceptRound (count sock address i : Nat) : List Label :=
  .accept count sock address :: List.replicate 19 (Label.thread i .go)

/-! ### The steps, read backwards -/

abbrev Slot.moved (s u : Slot) (i : Nat) (t : Thread) (pc : Pc) : Slot :=
  { u with threads := s.threads.set i ⟨t.role, pc⟩ }

theorem step_thread (h : step cfg s (.thread i ans) = some s') :
    ∃ t u pc', s.threads[i]? = some t ∧ next cfg s t.role ans t.pc = some (u, pc') ∧
      s' = s.moved u i t pc' := by
  simp only [step] at h
  split at h
  next t at_i =>
    obtain ⟨⟨u, pc'⟩, taken, rfl⟩ := Option.map_eq_some_iff.mp h
    exact ⟨t, u, pc', at_i, taken, rfl⟩
  next => cases h

/-- What a step of a thread can do: one case for each way through `next`. -/
inductive Moves (cfg : Config) (s : Slot) (role : Role) (ans : Answer) : Pc → Slot → Pc → Prop where
  | callIncrement (held : isNegative (inc32 s.IoCount) = false) :
    Moves cfg s role ans .callIncrement { s with IoCount := inc32 s.IoCount } .callTestDisconnected
  | callReleased (released : isNegative (inc32 s.IoCount) = true) :
    Moves cfg s role ans .callIncrement { s with IoCount := inc32 s.IoCount } (.decCas false)
  | callTestDisconnected (connected : s.bDisconnected = false) : Moves cfg s role ans .callTestDisconnected s .callTestRegistered
  | callDisconnected (disconnected : s.bDisconnected = true) : Moves cfg s role ans .callTestDisconnected s (.decCas false)
  | callTestRegistered (unregistered : s.bDisconnectRegistered = false) : Moves cfg s role ans .callTestRegistered s .callTestID
  | callRegistered (registered : s.bDisconnectRegistered = true) : Moves cfg s role ans .callTestRegistered s (.decCas false)
  | callOther (call : Call) (sessionID : Nat) (api : role = .api call sessionID) (other : s.ID ≠ sessionID) :
    Moves cfg s role ans .callTestID s (.decCas false)
  | callSend (packet : Nat) (api : role = .api (.sendPacket packet) s.ID) : Moves cfg s role ans .callTestID s .callAddRef
  | callDisconnect (api : role = .api .disconnect s.ID) : Moves cfg s role ans .callTestID s .callRegister
  | callSendAndDisconnect (packet : Nat) (api : role = .api (.sendAndDisconnect packet) s.ID) : Moves cfg s role ans .callTestID s .callRegister
  | callGetAddress (api : role = .api .getSessionAddress s.ID) : Moves cfg s role ans .callTestID s .callAddress
  | callRegister (sessionID : Nat) (api : role = .api .disconnect sessionID) :
    Moves cfg s role ans .callRegister { s with bDisconnectRegistered := true } .callCancel
  | callRegisterAndSend (packet sessionID : Nat) (api : role = .api (.sendAndDisconnect packet) sessionID) :
    Moves cfg s role ans .callRegister { s with bDisconnectRegistered := true } .callAddRef
  | callCancel : Moves cfg s role ans .callCancel (cancelIo s) (.decCas false)
  | callAddRef : Moves cfg s role ans .callAddRef s .callEnqueue
  | callEnqueueShows (packet sessionID : Nat) (sends : role = .api (.sendPacket packet) sessionID ∨ role = .api (.sendAndDisconnect packet) sessionID) (later : cfg.countsLater = true) :
    Moves cfg s role ans .callEnqueue { s with SendQueue := s.SendQueue ++ [⟨packet, sessionID⟩] } .callCount
  | callEnqueue (packet sessionID : Nat) (sends : role = .api (.sendPacket packet) sessionID ∨ role = .api (.sendAndDisconnect packet) sessionID) (atomic : cfg.countsLater = false) :
    Moves cfg s role ans .callEnqueue { s with
      SendQueue := s.SendQueue ++ [⟨packet, sessionID⟩]
      SendQueueCount := s.SendQueueCount + 1 } .sendCount
  | callCount : Moves cfg s role ans .callCount { s with SendQueueCount := s.SendQueueCount + 1 } .sendCount
  | callAddress : Moves cfg s role ans .callAddress s (.decCas false)
  | acceptIncrement : Moves cfg s role ans .acceptIncrement { s with IoCount := inc32 s.IoCount } .initClearFlag
  | initClearFlag : Moves cfg s role ans .initClearFlag { s with IoCount := s.IoCount &&& 0x7FFFFFFF, inits := s.inits + 1 } .initID
  | initID (count sock address : Nat) (accept : role = .accept count sock address) :
    Moves cfg s role ans .initID { s with ID := newSessionID cfg count } .initSocket
  | initSocket (count sock address : Nat) (accept : role = .accept count sock address) :
    Moves cfg s role ans .initSocket { s with Socket := sock } .initAddress
  | initAddress (count sock address : Nat) (accept : role = .accept count sock address) :
    Moves cfg s role ans .initAddress { s with Address := address } .initSendFlag
  | initSendFlag : Moves cfg s role ans .initSendFlag { s with bSendFlag := 0 } .initKey
  | initKey : Moves cfg s role ans .initKey { s with SessionListKey := cfg.key } .initDisconnected
  | initDisconnected : Moves cfg s role ans .initDisconnected { s with bDisconnected := false } .initRegistered
  | initRegistered : Moves cfg s role ans .initRegistered { s with bDisconnectRegistered := false } .initRecvBuffer
  | initRecvBuffer : Moves cfg s role ans .initRecvBuffer { s with RecvBuffer := s.RecvBuffer.clearBuffer } .initDrain
  | initDrained (zero : cfg.getCount s.SendQueueCount = 0) : Moves cfg s role ans .initDrain s (.initDropRefs 0)
  | initDrainWaits (left : cfg.getCount s.SendQueueCount ≠ 0) (empty : s.SendQueue = []) : Moves cfg s role ans .initDrain s .initDrain
  | initDrain (first : Queued) (rest : List Queued) (left : cfg.getCount s.SendQueueCount ≠ 0) (queue : s.SendQueue = first :: rest) :
    Moves cfg s role ans .initDrain { s with SendQueue := rest, SendQueueCount := s.SendQueueCount - 1 } .initDrain
  | initDropRefs (i : Nat) (more : i < s.RegisteredPacketCount) : Moves cfg s role ans (.initDropRefs i) s (.initDropRefs (i + 1))
  | initDropped (i : Nat) (last : s.RegisteredPacketCount ≤ i) : Moves cfg s role ans (.initDropRefs i) s .initRegisteredCount
  | initRegisteredCount : Moves cfg s role ans .initRegisteredCount { s with RegisteredPacketCount := 0 } .acceptCount
  | acceptCount : Moves cfg s role ans .acceptCount s .onAccept
  | onAccept : Moves cfg s role ans .onAccept { s with issued := s.accepted :: s.issued } .onAcceptReturn
  | onAcceptReturn : Moves cfg s role ans .onAcceptReturn s .recvTestDisconnected
  | sendDoneTake : Moves cfg s role ans .sendDoneTake { s with RegisteredPacketCount := 0 } (.sendDoneDrop s.RegisteredPacketCount 0)
  | sendDoneDrop (count i : Nat) (more : i < count) : Moves cfg s role ans (.sendDoneDrop count i) s (.sendDoneDrop count (i + 1))
  | sendDoneDropped (count i : Nat) (last : count ≤ i) : Moves cfg s role ans (.sendDoneDrop count i) s .sendDoneTest
  | sendDoneRegistered (registered : s.bDisconnectRegistered = true) : Moves cfg s role ans .sendDoneTest s (.decCas false)
  | sendDoneTest (unregistered : s.bDisconnectRegistered = false) : Moves cfg s role ans .sendDoneTest s .sendDoneClearFlag
  | sendDoneClearFlag (flag : s.bSendFlag = 1) : Moves cfg s role ans .sendDoneClearFlag { s with bSendFlag := 0 } .sendCount
  | sendDoneCrash (flag : s.bSendFlag ≠ 1) : Moves cfg s role ans .sendDoneClearFlag { s with bSendFlag := 0 } (.crashed 1)
  | recvDoneMove (n : Nat) :
    Moves cfg s role ans (.recvDoneMove n) { s with RecvBuffer := (s.RecvBuffer.moveRear n).getD s.RecvBuffer } (.recvDoneTest n)
  | recvDoneEnds (n : Nat) (ends : n = 0 ∨ s.bDisconnectRegistered = true) : Moves cfg s role ans (.recvDoneTest n) s (.decCas false)
  | recvDoneTest (n : Nat) (some_bytes : n ≠ 0) (unregistered : s.bDisconnectRegistered = false) :
    Moves cfg s role ans (.recvDoneTest n) s .recvLoop
  | recvLoopWaits (turn : packetLoop cfg.mMaxPayloadLength cfg.decode s.RecvBuffer = .wait) :
    Moves cfg s role ans .recvLoop s .recvTestDisconnected
  | recvLoopEnds (rb : RingBuffer RecvByte) (turn : packetLoop cfg.mMaxPayloadLength cfg.decode s.RecvBuffer = .disconnect rb) :
    Moves cfg s role ans .recvLoop { s with RecvBuffer := rb } (.decCas false)
  | recvLoop (frame : List RecvByte) (rb : RingBuffer RecvByte)
    (turn : packetLoop cfg.mMaxPayloadLength cfg.decode s.RecvBuffer = .deliver frame rb) :
    Moves cfg s role ans .recvLoop { s with RecvBuffer := rb } (.onReceive frame)
  | onReceive (frame : List RecvByte) : Moves cfg s role ans (.onReceive frame) s .onReceiveReturn
  | onReceiveReturn : Moves cfg s role ans .onReceiveReturn s .recvLoop
  | recvDisconnected (disconnected : s.bDisconnected = true) : Moves cfg s role ans .recvTestDisconnected s (.decCas false)
  | recvTestDisconnected (connected : s.bDisconnected = false) : Moves cfg s role ans .recvTestDisconnected s .recvTestRegistered
  | recvRegistered (registered : s.bDisconnectRegistered = true) : Moves cfg s role ans .recvTestRegistered s (.decCas false)
  | recvTestRegistered (unregistered : s.bDisconnectRegistered = false) : Moves cfg s role ans .recvTestRegistered s .recvIncrement
  | recvIncrement : Moves cfg s role ans .recvIncrement { s with IoCount := inc32 s.IoCount }
      (.wsaRecv s.RecvBuffer.mRear s.RecvBuffer.getDirectEnqueueSize.toNat)
  | wsaRecv (buf : Int) (len : Nat) (answer : ans = .pending) :
    Moves cfg s role ans (.wsaRecv buf len) { s with recvIo := s.recvIo ++ [⟨s.Socket, buf, len, .pending false⟩] } .recvTestCancel
  | wsaRecvAtOnce (buf : Int) (len : Nat) (data : List UInt8) (answer : ans = .atOnce data) (fits : data.length ≤ len) :
    Moves cfg s role ans (.wsaRecv buf len) { fill s ⟨s.Socket, buf, len, .pending false⟩ data with
      recvIo := s.recvIo ++ [⟨s.Socket, buf, len, .done true data.length⟩] } (.decCas false)
  | wsaRecvFails (buf : Int) (len : Nat) (answer : ans = .reset) : Moves cfg s role ans (.wsaRecv buf len) s (.decCas true)
  | recvTestCancel (registered : s.bDisconnectRegistered = true) : Moves cfg s role ans .recvTestCancel s .recvCancel
  | recvPosted (unregistered : s.bDisconnectRegistered = false) : Moves cfg s role ans .recvTestCancel s (.decCas false)
  | recvCancel : Moves cfg s role ans .recvCancel (cancelIo s) (.decCas false)
  | sendNothing (zero : cfg.getCount s.SendQueueCount = 0) : Moves cfg s role ans .sendCount s (.decCas false)
  | sendCount (left : cfg.getCount s.SendQueueCount ≠ 0) : Moves cfg s role ans .sendCount s .sendTestDisconnected
  | sendDisconnected (disconnected : s.bDisconnected = true) : Moves cfg s role ans .sendTestDisconnected s (.decCas false)
  | sendTestDisconnected (connected : s.bDisconnected = false) : Moves cfg s role ans .sendTestDisconnected s .sendTestRegistered
  | sendRegistered (registered : s.bDisconnectRegistered = true) : Moves cfg s role ans .sendTestRegistered s (.decCas false)
  | sendTestRegistered (unregistered : s.bDisconnectRegistered = false) : Moves cfg s role ans .sendTestRegistered s .sendTakeFlag
  | sendFlagTaken (flag : s.bSendFlag ≠ 0) : Moves cfg s role ans .sendTakeFlag { s with bSendFlag := 1 } (.decCas false)
  | sendTakeFlag (flag : s.bSendFlag = 0) : Moves cfg s role ans .sendTakeFlag { s with bSendFlag := 1 } .sendRecount
  | sendRecountsNone (zero : cfg.getCount s.SendQueueCount = 0) : Moves cfg s role ans .sendRecount s .sendGiveBack
  | sendRecount (left : cfg.getCount s.SendQueueCount ≠ 0) : Moves cfg s role ans .sendRecount s (.sendDequeue (cfg.getCount s.SendQueueCount) [])
  | sendGiveBack (flag : s.bSendFlag = 1) : Moves cfg s role ans .sendGiveBack { s with bSendFlag := 0 } (.decCas false)
  | sendGiveBackCrash (flag : s.bSendFlag ≠ 1) : Moves cfg s role ans .sendGiveBack { s with bSendFlag := 0 } (.crashed 1)
  | sendDequeueCrash (sendCount : Nat) (wsabuf : List Queued) (more : wsabuf.length < maxWsaBufCount ∧ sendCount ≠ 0)
    (zero : cfg.getCount s.SendQueueCount = 0) : Moves cfg s role ans (.sendDequeue sendCount wsabuf) s (.crashed 1)
  | sendDequeueWaits (sendCount : Nat) (wsabuf : List Queued) (more : wsabuf.length < maxWsaBufCount ∧ sendCount ≠ 0)
    (left : cfg.getCount s.SendQueueCount ≠ 0) (empty : s.SendQueue = []) :
    Moves cfg s role ans (.sendDequeue sendCount wsabuf) s (.sendDequeue sendCount wsabuf)
  | sendDequeue (sendCount : Nat) (wsabuf : List Queued) (packet : Queued) (rest : List Queued)
    (more : wsabuf.length < maxWsaBufCount ∧ sendCount ≠ 0) (left : cfg.getCount s.SendQueueCount ≠ 0) (queue : s.SendQueue = packet :: rest) :
    Moves cfg s role ans (.sendDequeue sendCount wsabuf) { s with
      SendQueue := rest
      SendQueueCount := s.SendQueueCount - 1
      RegisteredPackets := fun i => if i = s.RegisteredPacketCount then packet else s.RegisteredPackets i
      RegisteredPacketCount := s.RegisteredPacketCount + 1 } (.sendDequeue (sendCount - 1) (wsabuf ++ [packet]))
  | sendIncrement (sendCount : Nat) (wsabuf : List Queued) (filled : ¬ (wsabuf.length < maxWsaBufCount ∧ sendCount ≠ 0)) :
    Moves cfg s role ans (.sendDequeue sendCount wsabuf) { s with IoCount := inc32 s.IoCount } (.wsaSend wsabuf)
  | wsaSend (wsabuf : List Queued) (answer : ans = .pending) :
    Moves cfg s role ans (.wsaSend wsabuf) { s with sendIo := s.sendIo ++ [⟨s.Socket, wsabuf, .pending false⟩] } .sendTestCancel
  | wsaSendAtOnce (wsabuf : List Queued) (data : List UInt8) (answer : ans = .atOnce data) :
    Moves cfg s role ans (.wsaSend wsabuf) { s with sendIo := s.sendIo ++ [⟨s.Socket, wsabuf, .done true 0⟩] } (.decCas false)
  | wsaSendFails (wsabuf : List Queued) (answer : ans = .reset) : Moves cfg s role ans (.wsaSend wsabuf) s (.decCas true)
  | sendTestCancel (registered : s.bDisconnectRegistered = true) : Moves cfg s role ans .sendTestCancel s .sendCancel
  | sendPosted (unregistered : s.bDisconnectRegistered = false) : Moves cfg s role ans .sendTestCancel s (.decCas false)
  | sendCancel : Moves cfg s role ans .sendCancel (cancelIo s) (.decCas false)
  | decCas (again : Bool) (last : s.IoCount = 1) : Moves cfg s role ans (.decCas again) { s with IoCount := releaseFlag } (.releaseTest again)
  | decCasFails (again : Bool) (more : s.IoCount ≠ 1) : Moves cfg s role ans (.decCas again) s (.decDecrement again)
  | decDecrement (again : Bool) (left : dec32 s.IoCount ≠ 0) :
    Moves cfg s role ans (.decDecrement again) { s with IoCount := dec32 s.IoCount } (decReturn again)
  | decToZero (again : Bool) (zero : dec32 s.IoCount = 0) :
    Moves cfg s role ans (.decDecrement again) { s with IoCount := dec32 s.IoCount } (.decIncrement again)
  | decIncrement (again : Bool) : Moves cfg s role ans (.decIncrement again) { s with IoCount := inc32 s.IoCount } (.decCas again)
  | releaseCrash (again : Bool) (disconnected : s.bDisconnected = true) :
    Moves cfg s role ans (.releaseTest again) { s with bDisconnected := true } (.crashed (if again then 1 else 0))
  | releaseTest (again : Bool) (connected : s.bDisconnected = false) :
    Moves cfg s role ans (.releaseTest again) { s with bDisconnected := true } (.releaseClose again)
  | releaseClose (again : Bool) : Moves cfg s role ans (.releaseClose again) s (.releaseDisconnectedCount again)
  | releaseDisconnectedCount (again : Bool) : Moves cfg s role ans (.releaseDisconnectedCount again) s (.releaseSessionCount again)
  | releaseSessionCount (again : Bool) : Moves cfg s role ans (.releaseSessionCount again) s (.releasePost again)
  | releasePost (again : Bool) :
    Moves cfg s role ans (.releasePost again) { s with posted := s.posted ++ [s.ID] } (.releasePush again)
  | releasePush (again : Bool) : Moves cfg s role ans (.releasePush again)
      { s with unusedKeys := if s.SessionListKey = cfg.key then s.unusedKeys + 1 else s.unusedKeys } (decReturn again)
  | onRelease (sessionID : Nat) : Moves cfg s role ans (.onRelease sessionID) s .finished

theorem Moves.ite {c : Prop} [Decidable c] (yes : c → Moves cfg s role ans pc u pc₁) (no : ¬ c → Moves cfg s role ans pc u pc₂) :
    Moves cfg s role ans pc u (if c then pc₁ else pc₂) := by
  split
  next holds => exact yes holds
  next fails => exact no fails

theorem Moves.test {c : Bool} (yes : c = true → Moves cfg s role ans pc u pc₁) (no : c = false → Moves cfg s role ans pc u pc₂) :
    Moves cfg s role ans pc u (if c then pc₁ else pc₂) :=
  .ite yes fun fails => no (Bool.eq_false_of_not_eq_true fails)

theorem next_moves (h : next cfg s role ans pc = some (s', pc')) : Moves cfg s role ans pc s' pc' := by
  cases pc with
  | callIncrement =>
    cases h
    exact .test .callReleased .callIncrement
  | callTestDisconnected =>
    cases h
    exact .test .callDisconnected .callTestDisconnected
  | callTestRegistered =>
    cases h
    exact .test .callRegistered .callTestRegistered
  | callTestID =>
    cases role with
    | api call sessionID =>
      cases h
      refine .ite (.callOther call sessionID rfl) fun same => ?_
      obtain rfl : s.ID = sessionID := Decidable.not_not.mp same
      cases call with
      | sendPacket packet => exact .callSend packet rfl
      | disconnect => exact .callDisconnect rfl
      | sendAndDisconnect packet => exact .callSendAndDisconnect packet rfl
      | getSessionAddress => exact .callGetAddress rfl
    | accept | worker => cases h
  | callRegister =>
    cases role with
    | api call sessionID =>
      cases call with
      | disconnect =>
        cases h
        exact .callRegister sessionID rfl
      | sendAndDisconnect packet =>
        cases h
        exact .callRegisterAndSend packet sessionID rfl
      | sendPacket | getSessionAddress => cases h
    | accept | worker => cases h
  | callEnqueue =>
    have visible (packet sessionID : Nat) (sends : role = .api (.sendPacket packet) sessionID ∨ role = .api (.sendAndDisconnect packet) sessionID)
        (h : (if cfg.countsLater then some ({ s with SendQueue := s.SendQueue ++ [⟨packet, sessionID⟩] }, Pc.callCount)
          else some ({ s with SendQueue := s.SendQueue ++ [⟨packet, sessionID⟩], SendQueueCount := s.SendQueueCount + 1 }, .sendCount)) =
          some (s', pc')) : Moves cfg s role ans .callEnqueue s' pc' := by
      split at h
      next later =>
        cases h
        exact .callEnqueueShows packet sessionID sends later
      next atomic =>
        cases h
        exact .callEnqueue packet sessionID sends (Bool.eq_false_of_not_eq_true atomic)
    cases role with
    | api call sessionID =>
      cases call with
      | sendPacket packet => exact visible packet sessionID (.inl rfl) h
      | sendAndDisconnect packet => exact visible packet sessionID (.inr rfl) h
      | disconnect | getSessionAddress => cases h
    | accept | worker => cases h
  | initID | initSocket | initAddress =>
    cases role with
    | accept count sock address =>
      cases h
      constructor
      rfl
    | api | worker => cases h
  | initDrain =>
    simp only [next] at h
    split at h
    next zero =>
      cases h
      exact .initDrained zero
    next left =>
      split at h
      next empty =>
        cases h
        exact .initDrainWaits left empty
      next first rest queue =>
        cases h
        exact .initDrain first rest left queue
  | initDropRefs i =>
    cases h
    exact .ite (.initDropRefs i) fun last => .initDropped i (Nat.le_of_not_lt last)
  | sendDoneDrop count i =>
    cases h
    exact .ite (.sendDoneDrop count i) fun last => .sendDoneDropped count i (Nat.le_of_not_lt last)
  | sendDoneTest =>
    cases h
    exact .test .sendDoneRegistered .sendDoneTest
  | sendDoneClearFlag =>
    cases h
    exact .ite .sendDoneClearFlag .sendDoneCrash
  | recvDoneTest n =>
    cases h
    refine .ite (.recvDoneEnds n) fun goes_on => ?_
    rw [not_or] at goes_on
    exact .recvDoneTest n goes_on.1 (Bool.eq_false_of_not_eq_true goes_on.2)
  | recvLoop =>
    simp only [next] at h
    split at h
    next turn =>
      cases h
      exact .recvLoopWaits turn
    next rb turn =>
      cases h
      exact .recvLoopEnds rb turn
    next => cases h
    next frame rb turn =>
      cases h
      exact .recvLoop frame rb turn
  | recvTestDisconnected =>
    cases h
    exact .test .recvDisconnected .recvTestDisconnected
  | recvTestRegistered =>
    cases h
    exact .test .recvRegistered .recvTestRegistered
  | wsaRecv buf len =>
    cases ans with
    | go => cases h
    | pending =>
      cases h
      exact .wsaRecv buf len rfl
    | atOnce data =>
      simp only [next] at h
      split at h
      next fits =>
        cases h
        exact .wsaRecvAtOnce buf len data rfl fits
      next => cases h
    | reset =>
      cases h
      exact .wsaRecvFails buf len rfl
  | recvTestCancel =>
    cases h
    exact .test .recvTestCancel .recvPosted
  | sendCount =>
    cases h
    exact .ite .sendNothing .sendCount
  | sendTestDisconnected =>
    cases h
    exact .test .sendDisconnected .sendTestDisconnected
  | sendTestRegistered =>
    cases h
    exact .test .sendRegistered .sendTestRegistered
  | sendTakeFlag =>
    cases h
    exact .ite .sendFlagTaken fun free => .sendTakeFlag (Decidable.not_not.mp free)
  | sendRecount =>
    cases h
    exact .ite .sendRecountsNone .sendRecount
  | sendGiveBack =>
    cases h
    exact .ite .sendGiveBack .sendGiveBackCrash
  | sendDequeue sendCount wsabuf =>
    simp only [next] at h
    split at h
    next more =>
      split at h
      next zero =>
        cases h
        exact .sendDequeueCrash sendCount wsabuf more zero
      next left =>
        split at h
        next empty =>
          cases h
          exact .sendDequeueWaits sendCount wsabuf more left empty
        next packet rest queue =>
          cases h
          exact .sendDequeue sendCount wsabuf packet rest more left queue
    next filled =>
      cases h
      exact .sendIncrement sendCount wsabuf filled
  | wsaSend wsabuf =>
    cases ans with
    | go => cases h
    | pending =>
      cases h
      exact .wsaSend wsabuf rfl
    | atOnce data =>
      cases h
      exact .wsaSendAtOnce wsabuf data rfl
    | reset =>
      cases h
      exact .wsaSendFails wsabuf rfl
  | sendTestCancel =>
    cases h
    exact .test .sendTestCancel .sendPosted
  | decCas again =>
    simp only [next] at h
    split at h
    next last =>
      cases h
      exact .decCas again last
    next more =>
      cases h
      exact .decCasFails again more
  | decDecrement again =>
    cases h
    exact .ite (.decToZero again) (.decDecrement again)
  | releaseTest again =>
    cases h
    exact .test (.releaseCrash again) (.releaseTest again)
  | crashed | finished => cases h
  | _ =>
    cases h
    constructor

theorem step_accept (h : step cfg s (.accept count sock address) = some s') :
    0 < s.unusedKeys ∧ s' = { s with
      unusedKeys := s.unusedKeys - 1, accepted := count, acceptedSocket := sock
      threads := s.threads ++ [⟨.accept count sock address, .acceptIncrement⟩] } := by
  simp only [step] at h
  split at h
  next key => exact ⟨key, (Option.some.inj h).symm⟩
  next => cases h

theorem step_recvCompletes (h : step cfg s (.recvCompletes j data) = some s') :
    ∃ io, s.recvIo[j]? = some io ∧ data.length ≤ io.len ∧ s' = { fill s io data with
      recvIo := s.recvIo.set j { io with status := .done true data.length } } := by
  simp only [step] at h
  split at h
  next at_j =>
    split at h
    next fits => exact ⟨_, at_j, fits, (Option.some.inj h).symm⟩
    next => cases h
  next => cases h

theorem step_recvFails (h : step cfg s (.recvFails j) = some s') :
    ∃ io, s.recvIo[j]? = some io ∧
      s' = { s with recvIo := s.recvIo.set j { io with status := .done false 0 } } := by
  simp only [step] at h
  split at h
  next at_j => exact ⟨_, at_j, (Option.some.inj h).symm⟩
  next => cases h

theorem step_sendCompletes (h : step cfg s (.sendCompletes j) = some s') :
    ∃ io, s.sendIo[j]? = some io ∧
      s' = { s with sendIo := s.sendIo.set j { io with status := .done true 0 } } := by
  simp only [step] at h
  split at h
  next at_j => exact ⟨_, at_j, (Option.some.inj h).symm⟩
  next => cases h

theorem step_sendFails (h : step cfg s (.sendFails j) = some s') :
    ∃ io, s.sendIo[j]? = some io ∧
      s' = { s with sendIo := s.sendIo.set j { io with status := .done false 0 } } := by
  simp only [step] at h
  split at h
  next at_j => exact ⟨_, at_j, (Option.some.inj h).symm⟩
  next => cases h

theorem step_workRecv (h : step cfg s (.workRecv j) = some s') :
    ∃ io success n, s.recvIo[j]? = some io ∧ io.status = .done success n ∧
      s' = { s with
        recvIo := s.recvIo.eraseIdx j
        threads := s.threads ++ [⟨.worker, if success then .recvDoneMove n else .decCas false⟩] } := by
  simp only [step] at h
  split at h
  next at_j => exact ⟨_, _, _, at_j, rfl, (Option.some.inj h).symm⟩
  next => cases h

theorem step_workSend (h : step cfg s (.workSend j) = some s') :
    ∃ io success n, s.sendIo[j]? = some io ∧ io.status = .done success n ∧
      s' = { s with
        sendIo := s.sendIo.eraseIdx j
        threads := s.threads ++ [⟨.worker, if success then .sendDoneTake else .decCas false⟩] } := by
  simp only [step] at h
  split at h
  next at_j => exact ⟨_, _, _, at_j, rfl, (Option.some.inj h).symm⟩
  next => cases h

theorem step_workRelease (h : step cfg s (.workRelease j) = some s') :
    ∃ sessionID, s.posted[j]? = some sessionID ∧ s' = { s with
      posted := s.posted.eraseIdx j
      threads := s.threads ++ [⟨.worker, .onRelease sessionID⟩] } := by
  simp only [step] at h
  split at h
  next at_j => exact ⟨_, at_j, (Option.some.inj h).symm⟩
  next => cases h

/-! ### What a step leaves alone -/

/-- The members that only the accept thread writes keep their values. -/
structure Slot.Keeps (s s' : Slot) : Prop where
  id : s'.ID = s.ID
  socket : s'.Socket = s.Socket
  address : s'.Address = s.Address
  key : s'.SessionListKey = s.SessionListKey
  inits : s'.inits = s.inits
  issued : s'.issued = s.issued

/-- So do those that threads other than the accept thread write. -/
structure Slot.Untouched (s s' : Slot) : Prop extends Slot.Keeps s s' where
  count : s'.IoCount = s.IoCount
  disconnected : s'.bDisconnected = s.bDisconnected
  registered : s'.bDisconnectRegistered = s.bDisconnectRegistered
  flag : s'.bSendFlag = s.bSendFlag
  queue : s'.SendQueue = s.SendQueue ∧ s'.SendQueueCount = s.SendQueueCount
  packets : s'.RegisteredPackets = s.RegisteredPackets ∧ s'.RegisteredPacketCount = s.RegisteredPacketCount

def Pc.Start : Pc → Prop
  | .acceptIncrement | .callIncrement | .recvDoneMove _ | .sendDoneTake | .decCas false | .onRelease _ => True
  | _ => False

theorem step_outside (h : step cfg s l = some s') (outside : ∀ i ans, l ≠ .thread i ans) :
    s.Untouched s' ∧ (s'.threads = s.threads ∨ ∃ t, s'.threads = s.threads ++ [t] ∧ t.pc.Start) := by
  cases l with
  | accept count sock address =>
    obtain ⟨-, rfl⟩ := step_accept h
    exact ⟨⟨⟨rfl, rfl, rfl, rfl, rfl, rfl⟩, rfl, rfl, rfl, rfl, ⟨rfl, rfl⟩, rfl, rfl⟩, .inr ⟨_, rfl, trivial⟩⟩
  | call call sessionID =>
    obtain rfl := Option.some.inj h
    exact ⟨⟨⟨rfl, rfl, rfl, rfl, rfl, rfl⟩, rfl, rfl, rfl, rfl, ⟨rfl, rfl⟩, rfl, rfl⟩, .inr ⟨_, rfl, trivial⟩⟩
  | recvCompletes j data =>
    obtain ⟨io, -, -, rfl⟩ := step_recvCompletes h
    exact ⟨⟨⟨rfl, rfl, rfl, rfl, rfl, rfl⟩, rfl, rfl, rfl, rfl, ⟨rfl, rfl⟩, rfl, rfl⟩, .inl rfl⟩
  | recvFails j =>
    obtain ⟨io, -, rfl⟩ := step_recvFails h
    exact ⟨⟨⟨rfl, rfl, rfl, rfl, rfl, rfl⟩, rfl, rfl, rfl, rfl, ⟨rfl, rfl⟩, rfl, rfl⟩, .inl rfl⟩
  | sendCompletes j =>
    obtain ⟨io, -, rfl⟩ := step_sendCompletes h
    exact ⟨⟨⟨rfl, rfl, rfl, rfl, rfl, rfl⟩, rfl, rfl, rfl, rfl, ⟨rfl, rfl⟩, rfl, rfl⟩, .inl rfl⟩
  | sendFails j =>
    obtain ⟨io, -, rfl⟩ := step_sendFails h
    exact ⟨⟨⟨rfl, rfl, rfl, rfl, rfl, rfl⟩, rfl, rfl, rfl, rfl, ⟨rfl, rfl⟩, rfl, rfl⟩, .inl rfl⟩
  | workRecv j =>
    obtain ⟨io, success, n, -, -, rfl⟩ := step_workRecv h
    exact ⟨⟨⟨rfl, rfl, rfl, rfl, rfl, rfl⟩, rfl, rfl, rfl, rfl, ⟨rfl, rfl⟩, rfl, rfl⟩, .inr ⟨_, rfl, by cases success <;> trivial⟩⟩
  | workSend j =>
    obtain ⟨io, success, n, -, -, rfl⟩ := step_workSend h
    exact ⟨⟨⟨rfl, rfl, rfl, rfl, rfl, rfl⟩, rfl, rfl, rfl, rfl, ⟨rfl, rfl⟩, rfl, rfl⟩, .inr ⟨_, rfl, by cases success <;> trivial⟩⟩
  | workRelease j =>
    obtain ⟨sessionID, -, rfl⟩ := step_workRelease h
    exact ⟨⟨⟨rfl, rfl, rfl, rfl, rfl, rfl⟩, rfl, rfl, rfl, rfl, ⟨rfl, rfl⟩, rfl, rfl⟩, .inr ⟨_, rfl, trivial⟩⟩
  | thread i ans => exact absurd rfl (outside i ans)

/-- The accept thread between its pop of the key and `OnAccept`. -/
def Pc.initialises : Pc → Bool
  | .acceptIncrement | .initClearFlag
  | .initID | .initSocket | .initAddress | .initSendFlag | .initKey | .initDisconnected
  | .initRegistered | .initRecvBuffer | .initDrain | .initDropRefs _ | .initRegisteredCount
  | .acceptCount | .onAccept => true
  | _ => false

/-- Between accepts, what joins is a call that came in, or a worker. -/
theorem step_unaccepted (h : step cfg s l = some s') (outside : ∀ i ans, l ≠ .thread i ans)
    (other : ∀ count sock address, l ≠ .accept count sock address) :
    (s'.unusedKeys = s.unusedKeys ∧ s'.accepted = s.accepted ∧ s'.acceptedSocket = s.acceptedSocket) ∧
      (s'.threads = s.threads ∨ ∃ t, s'.threads = s.threads ++ [t] ∧ t.pc.initialises = false ∧
        (t.role = .worker ∨ ∃ call sessionID, l = .call call sessionID)) := by
  cases l with
  | accept count sock address => exact absurd rfl (other count sock address)
  | call call sessionID =>
    obtain rfl := Option.some.inj h
    exact ⟨⟨rfl, rfl, rfl⟩, .inr ⟨_, rfl, rfl, .inr ⟨call, sessionID, rfl⟩⟩⟩
  | recvCompletes j data =>
    obtain ⟨io, -, -, rfl⟩ := step_recvCompletes h
    exact ⟨⟨rfl, rfl, rfl⟩, .inl rfl⟩
  | recvFails j =>
    obtain ⟨io, -, rfl⟩ := step_recvFails h
    exact ⟨⟨rfl, rfl, rfl⟩, .inl rfl⟩
  | sendCompletes j =>
    obtain ⟨io, -, rfl⟩ := step_sendCompletes h
    exact ⟨⟨rfl, rfl, rfl⟩, .inl rfl⟩
  | sendFails j =>
    obtain ⟨io, -, rfl⟩ := step_sendFails h
    exact ⟨⟨rfl, rfl, rfl⟩, .inl rfl⟩
  | workRecv j =>
    obtain ⟨io, success, n, -, -, rfl⟩ := step_workRecv h
    exact ⟨⟨rfl, rfl, rfl⟩, .inr ⟨_, rfl, by cases success <;> rfl, .inl rfl⟩⟩
  | workSend j =>
    obtain ⟨io, success, n, -, -, rfl⟩ := step_workSend h
    exact ⟨⟨rfl, rfl, rfl⟩, .inr ⟨_, rfl, by cases success <;> rfl, .inl rfl⟩⟩
  | workRelease j =>
    obtain ⟨sessionID, -, rfl⟩ := step_workRelease h
    exact ⟨⟨rfl, rfl, rfl⟩, .inr ⟨_, rfl, rfl, .inl rfl⟩⟩
  | thread i ans => exact absurd rfl (outside i ans)

theorem next_keeps (h : next cfg s role ans pc = some (s', pc')) (other : pc.initialises = false) :
    s.Keeps s' := by
  cases next_moves h with
  | initClearFlag | initID | initSocket | initAddress | initKey | onAccept => cases other
  | _ => exact ⟨rfl, rfl, rfl, rfl, rfl, rfl⟩

/-- No thread's step touches what `accept` records, or the other threads. -/
theorem next_accepted (h : next cfg s role ans pc = some (s', pc')) :
    s'.accepted = s.accepted ∧ s'.acceptedSocket = s.acceptedSocket ∧ s'.threads = s.threads := by
  cases next_moves h
  all_goals exact ⟨rfl, rfl, rfl⟩

/-! ### A thread alone -/

/-- `n` steps of one thread, with the system's answer to each. -/
def solo (cfg : Config) (role : Role) : List Answer → Slot × Pc → Option (Slot × Pc)
  | [], x => some x
  | ans :: rest, x => (next cfg x.1 role ans x.2).bind (solo cfg role rest)

theorem solo_append (first later : List Answer) (x : Slot × Pc) :
    solo cfg role (first ++ later) x = (solo cfg role first x).bind (solo cfg role later) := by
  induction first generalizing x with
  | nil => rfl
  | cons ans first ih => simp only [List.cons_append, solo, Option.bind_assoc, ih]

theorem next_decDecrement (s : Slot) : next cfg s role ans (.decDecrement again) = some ({ s with IoCount := dec32 s.IoCount },
    if dec32 s.IoCount = 0 then .decIncrement again else decReturn again) := rfl

theorem next_threads (threads : List Thread) : next cfg { s with threads := threads } role ans pc =
    (next cfg s role ans pc).map fun r => ({ r.1 with threads := threads }, r.2) := by
  cases pc
  case decDecrement again =>
    rw [next_decDecrement, next_decDecrement]
    generalize dec32 s.IoCount = count
    rfl
  all_goals
    simp only [next]
    repeat' split
  all_goals simp only [Option.map_some, Option.map_none, fill, cancelIo]

theorem solo_threads (threads : List Thread) (answers : List Answer) : solo cfg role answers ({ s with threads := threads }, pc) =
    (solo cfg role answers (s, pc)).map fun r => ({ r.1 with threads := threads }, r.2) := by
  induction answers generalizing s pc with
  | nil => rfl
  | cons ans rest ih =>
    simp only [solo, next_threads]
    cases next cfg s role ans pc with
    | none => rfl
    | some r => exact ih

theorem exec_solo {S : System Slot Label} (steps : S.step = step cfg) (at_i : s.threads[i]? = some t)
    (h : solo cfg t.role answers (s, t.pc) = some (u, pc')) :
    exec S s (answers.map (.thread i)) = some { u with threads := s.threads.set i ⟨t.role, pc'⟩ } := by
  induction answers generalizing s t u with
  | nil =>
    have same : s.threads.set i t = s.threads := Threads.set_same at_i
    obtain ⟨is, there⟩ := Prod.mk.inj (Option.some.inj h)
    rw [← is, ← there]
    show some s = some { s with threads := s.threads.set i t }
    rw [same]
  | cons ans rest ih =>
    obtain ⟨⟨s₁, pc₁⟩, taken, h⟩ := Option.bind_eq_some_iff.mp h
    have lt := (List.getElem?_eq_some_iff.mp at_i).1
    have moved : S.step s (.thread i ans) = some (s.moved s₁ i t pc₁) := by simp [steps, step, at_i, taken]
    refine Option.bind_eq_some_iff.mpr ⟨_, moved, ?_⟩
    have after : solo cfg t.role rest (s.moved s₁ i t pc₁, pc₁) = some ({ u with threads := s.threads.set i ⟨t.role, pc₁⟩ }, pc') := by
      rw [solo_threads, h]
      rfl
    have at_i' : (s.moved s₁ i t pc₁).threads[i]? = some ⟨t.role, pc₁⟩ := List.getElem?_set_self lt
    simpa using ih at_i' after

end WanNet.Session
