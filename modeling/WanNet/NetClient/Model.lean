import WanNet.NetClient.PacketLoop
import WanNet.Lib.Transition

/-!
`NetClient`: any number of calls of `Connect` and `Disconnect`, and the recv threads that the calls of
`Connect` start. Each read and write of `mSocket` and `mbIsConnected` and each socket call is one
step; the packet loop, which touches nothing that other calls touch, goes with the `recv` before it.
-/

namespace WanNet.NetClient
open Transition

inductive Connect where
  | testConnected | createSocket | writeSocket (socket : Nat) | readSocket | tryConnect (socket : Nat)
  | startThread | writeConnected | returned (result : Bool)
  deriving DecidableEq

inductive Disconnect where
  | testConnected | writeConnected | readSocket | shutdown (socket : Nat) | returned
  deriving DecidableEq

/-- What `recvThread` does next. Calls that `OnDisconnect` makes are calls like others, before `closeSocket`. -/
inductive Recv where
  | readSocket | recv (socket : Nat)
  | backup | writeConnected (socketBackup : Nat) | onDisconnect (socketBackup : Nat) | closeSocket (socketBackup : Nat)
  | returned
  deriving DecidableEq

inductive Thread where
  | connect (pc : Connect)
  | disconnect (pc : Disconnect)
  /-- with the call of `Connect` that started it, and what it gave to `OnReceive` -/
  | recvThread (connection : Nat) (pc : Recv) (delivered : List (List UInt8))
  deriving DecidableEq

structure Client where
  mSocket : Nat := 0
  mbIsConnected : Bool := false
  mRecvBuffer : RingBuffer UInt8
  /-- an assertion has failed, or a copy has run past a packet's buffer -/
  died : Bool := false
  threads : List Thread := []
  /-- bookkeeping: the open sockets, each with the call of `Connect` that created it -/
  sockets : List (Nat × Nat) := []
  /-- bookkeeping: the bytes that came in on the socket of each call of `Connect` -/
  streams : Nat → List UInt8 := fun _ => []

inductive Answer where
  | none
  | socket (handle : Nat)
  | success (ok : Bool)
  /-- of `recv`; no bytes at the end of the stream or for an error -/
  | bytes (data : List UInt8)
  deriving DecidableEq

/-- The next step of `Connect`, and the thread it may start. -/
def connect (s : Client) (i : Nat) : Connect → Answer → Option (Client × Connect × Option Thread)
  | .testConnected, .none => some (s, if s.mbIsConnected then .returned false else .createSocket, none)
  | .createSocket, .socket handle =>
    -- no two open sockets have the same handle
    if s.sockets.lookup handle = none then some ({ s with sockets := (handle, i) :: s.sockets }, .writeSocket handle, none) else none
  | .writeSocket socket, .none => some ({ s with mSocket := socket }, .readSocket, none)
  | .readSocket, .none => some (s, .tryConnect s.mSocket, none)
  | .tryConnect _, .success bConnectSuccess => some (s, if bConnectSuccess then .startThread else .returned false, none)
  | .startThread, .success ok => some (s, .writeConnected, if ok then some (.recvThread i .readSocket []) else none)
  | .writeConnected, .none => some ({ s with mbIsConnected := true }, .returned true, none)
  | _, _ => none

def disconnect (s : Client) : Disconnect → Answer → Option (Client × Disconnect)
  | .testConnected, .none => some (s, if s.mbIsConnected then .writeConnected else .returned)
  | .writeConnected, .none => some ({ s with mbIsConnected := false }, .readSocket)
  | .readSocket, .none => some (s, .shutdown s.mSocket)
  | .shutdown _, .none => some (s, .returned)
  | _, _ => none

/-- The next step of `recvThread`, and the packets of the loop. -/
def recvThread (s : Client) : Recv → Answer → Option (Client × Recv × List (List UInt8))
  | .readSocket, .none => some (s, .recv s.mSocket, [])
  | .recv socket, .bytes data =>
    if data = [] then some (s, .backup, [])
    else
      match s.sockets.lookup socket with
      | none => none
      | some connection =>
        if (data.length : Int) ≤ s.mRecvBuffer.getDirectEnqueueSize then
          let filled := s.mRecvBuffer.receive data
          let turn := packetLoop Serializer.decode (filled.getUseSize.toNat + 1) filled
          some ({ s with
            mRecvBuffer := turn.mRecvBuffer
            died := turn.died
            streams := fun c => if c = connection then s.streams c ++ data else s.streams c }, .readSocket, turn.packets)
        else none
  | .backup, .none => some (s, .writeConnected s.mSocket, [])
  | .writeConnected socketBackup, .none => some ({ s with mbIsConnected := false }, .onDisconnect socketBackup, [])
  | .onDisconnect socketBackup, .none => some (s, .closeSocket socketBackup, [])
  | .closeSocket socketBackup, .none =>
    some ({ s with sockets := s.sockets.filter fun open_ => open_.1 ≠ socketBackup }, .returned, [])
  | _, _ => none

inductive Label where
  | connect
  | disconnect
  | thread (i : Nat) (answer : Answer)
  deriving DecidableEq

def step (s : Client) : Label → Option Client
  | .connect => if s.died then none else some { s with threads := s.threads ++ [.connect .testConnected] }
  | .disconnect => if s.died then none else some { s with threads := s.threads ++ [.disconnect .testConnected] }
  | .thread i answer =>
    if s.died then none
    else
      match s.threads[i]? with
      | none => none
      | some (.connect pc) => (connect s i pc answer).map fun r =>
        { r.1 with threads := s.threads.set i (.connect r.2.1) ++ r.2.2.toList }
      | some (.disconnect pc) => (disconnect s pc answer).map fun r =>
        { r.1 with threads := s.threads.set i (.disconnect r.2) }
      | some (.recvThread connection pc delivered) => (recvThread s pc answer).map fun r =>
        { r.1 with threads := s.threads.set i (.recvThread connection r.2.1 (delivered ++ r.2.2)) }

/-- A client that has not connected yet; what the ring's cells hold is arbitrary. -/
def client : System Client Label where
  init s := ∃ mem, s = { mRecvBuffer := .new mem RingBuffer.defaultSize RingBuffer.defaultSize_range }
  step := step

end WanNet.NetClient
