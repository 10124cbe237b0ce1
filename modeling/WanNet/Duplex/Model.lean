import WanNet.Network.Delivery
import WanNet.Server.Handlers

/-!
The network in both directions: what `NetClient::SendPacket` gives to `send` comes in at the server's
receives, over the connections that bring the clients theirs.
-/

namespace WanNet.Duplex
open Transition Serializer Network

inductive SendPacket where
  | testConnected | prepare | readSocket | send (socket : Nat) | returned (result : Bool)
  deriving DecidableEq

structure Sender where
  packet : Packet
  pc : SendPacket := .testConnected
  /-- bookkeeping: what the application has put into the packet -/
  payload : List UInt8

/-- The next step of `SendPacket`; `rand` is what `rand()` returns. -/
def sendPacket (c : NetClient.Client) (packet : Packet) (rand : UInt8) : SendPacket → Option (Packet × SendPacket)
  | .testConnected => some (packet, if c.mbIsConnected then .prepare else .returned false)
  | .prepare =>
    if packet.mbSendPrepared then some (packet, .readSocket)
    else (packet.prepareSend rand).toOption.map fun packet => (packet, .readSocket)
  | .readSocket => some (packet, .send c.mSocket)
  | .send _ => some (packet, .returned true)
  | .returned _ => none

def frameOf (packet : Packet) : List UInt8 := packet.sent.toOption.getD []

/-- What has been written to a packet, or was before `prepareSend`. -/
def payloadOf (packet : Packet) : List UInt8 :=
  if packet.mbSendPrepared then (Serializer.decode (frameOf packet)).getD [] else Traffic.contents packet

structure State where
  net : Network.State
  /-- by client -/
  senders : Nat → List Sender := fun _ => []
  /-- the bytes that `send` has taken on a connection -/
  uplink : Peer → List UInt8 := fun _ => []
  /-- the bytes that have come in on a socket of the server -/
  inbound : Nat → List UInt8 := fun _ => []
  /-- bookkeeping: the payloads of the packets that `send` has taken on a connection -/
  told : Peer → List (List UInt8) := fun _ => []
  /-- bookkeeping: by socket, what has happened to the session that the server has for it -/
  news : Nat → List Session.Happening := fun _ => []

/-- What the client at the other end of a socket has sent. -/
def State.outOf (s : State) : Nat → List UInt8
  | 0 => []
  | n + 1 => (s.net.peers[n]?).elim [] s.uplink

/-- The bytes that a step of a slot takes from a socket. -/
def brings (v : Session.Slot) : Session.Label → Option (Nat × List UInt8)
  | .recvCompletes j data => (v.recvIo[j]?).map fun io => (io.socket, data)
  | .thread i (.atOnce data) =>
    match (v.threads[i]?).map Session.Thread.pc with
    | some (.wsaRecv _ _) => some (v.Socket, data)
    | _ => none
  | _ => none

def slotOf (s : State) : Network.Label → Option (Nat × Session.Slot × Session.Label)
  | .server (.server (.at key l) _) _ => (s.net.server.server.mSessionList[key]?).map fun v => (key, v, l)
  | _ => none

def arriving (s : State) (l : Network.Label) : Option (Nat × List UInt8) :=
  (slotOf s l).bind fun x => brings x.2.1 x.2.2

/-- `inbound` after a step of the network. -/
def receive (s : State) (l : Network.Label) (w : Nat) : List UInt8 :=
  match arriving s l with
  | some (socket, data) => if w = socket then s.inbound w ++ data else s.inbound w
  | none => s.inbound w

/-- `news` after a step of the network. -/
def report (p : Traffic.Params) (s : State) (l : Network.Label) (w : Nat) : List Session.Happening :=
  match slotOf s l with
  | some (key, v, l) =>
    if 0 < v.accepted ∧ w = v.acceptedSocket then
      s.news w ++ (Session.ofSession (Session.newSessionID (p.server.config key) v.accepted) (Session.happening v l)).toList
    else s.news w
  | none => s.news w

/-- The connection on which a step of `SendPacket` sends; `ok` is whether `send` takes the packet. -/
def sendsOn (c : NetClient.Client) (k : Nat) (ok : Bool) : SendPacket → Option Peer
  | .send socket => if ok then (c.sockets.lookup socket).map fun connection => ⟨k, connection⟩ else none
  | _ => none

/-- What can happen next: the network takes a step, a client's application calls `SendPacket`, or a call of it
takes a step. -/
inductive Label where
  | net (l : Network.Label)
  | sendPacket (k : Nat) (packet : Option Packet)
  | sender (k i : Nat) (rand : UInt8) (ok : Bool)

def step (p : Traffic.Params) (s : State) : Label → Option State
  | .net l =>
    if ∀ x ∈ arriving s l, s.inbound x.1 ++ x.2 <+: s.outOf x.1 then
      (Network.step p s.net l).map fun net => { s with net := net, inbound := receive s l, news := report p s l }
    else none
  | .sendPacket _ none => some s
  | .sendPacket k (some packet) => some { s with
      senders := fun n => if n = k then s.senders n ++ [⟨packet, .testConnected, payloadOf packet⟩] else s.senders n }
  | .sender k i rand ok =>
    ((s.senders k)[i]?).bind fun x => (sendPacket (s.net.clients k) x.packet rand x.pc).map fun r => { s with
      senders := fun n => if n = k then (s.senders n).set i ⟨r.1, r.2, x.payload⟩ else s.senders n
      uplink := fun peer => if sendsOn (s.net.clients k) k ok x.pc = some peer then s.uplink peer ++ frameOf x.packet else s.uplink peer
      told := fun peer => if sendsOn (s.net.clients k) k ok x.pc = some peer then s.told peer ++ [x.payload] else s.told peer }

structure Started (p : Traffic.Params) (s : State) : Prop where
  net : Network.Started p s.net
  rings : ∀ v ∈ s.net.server.server.mSessionList, v.RecvBuffer.mCapacity = RingBuffer.defaultSize
  unused : (∀ k, s.senders k = []) ∧ (∀ peer, s.uplink peer = []) ∧ (∀ peer, s.told peer = []) ∧
    (∀ w, s.inbound w = []) ∧ ∀ w, s.news w = []

def duplex (p : Traffic.Params) : System State Label where
  init := Started p
  step := step p

/-- A packet that a client may send: written to, or prepared by an earlier call, and no longer than the server allows. -/
structure Sendable (p : Traffic.Params) (packet : Packet) : Prop where
  short : (payloadOf packet).length ≤ p.mMaxPayloadLength
  good : if packet.mbSendPrepared then packet.sent.toOption = some (wire packet.header.RandKey (payloadOf packet))
    else packet.mDeserialingSize.toNat ≤ packet.mSize.toNat ∧ packet.mSize.toNat ≤ defaultSize

instance : Decidable (Sendable p packet) :=
  decidable_of_iff (_ ∧ _) ⟨fun h => ⟨h.1, h.2⟩, fun h => ⟨h.1, h.2⟩⟩

/-- Every receive leaves a cell of its ring free, and fewer than 2^32 sessions are accepted. -/
def Spacious (s : State) (l : Network.Label) : Prop :=
  (∀ x ∈ slotOf s l, Session.Roomy x.2.1 x.2.2) ∧
    match l with
    | .server (.server l _) _ => Server.Opening s.net.server.server l
    | _ => True

instance : Decidable (Spacious s l) := by
  unfold Spacious
  split <;> infer_instance

/-- The network is used as it was, and clients send what they may. -/
def Proper (p : Traffic.Params) (s : State) : Label → Prop
  | .net l => Network.Proper p s.net l ∧ Spacious s l
  | .sendPacket _ packet => ∀ q ∈ packet, Sendable p q
  | .sender _ _ _ _ => True

instance : Decidable (Proper p s l) :=
  match l with
  | .net _ => inferInstanceAs (Decidable (_ ∧ _))
  | .sendPacket _ packet => inferInstanceAs (Decidable (∀ q ∈ packet, _))
  | .sender _ _ _ _ => .isTrue trivial

/-! ### The steps, read backwards -/

variable {p : Traffic.Params} {s s' : State} {k i : Nat} {rand : UInt8} {ok : Bool}

theorem step_net {l : Network.Label} (h : step p s (.net l) = some s') :
    (∀ x ∈ arriving s l, s.inbound x.1 ++ x.2 <+: s.outOf x.1) ∧ ∃ net, Network.step p s.net l = some net ∧
      s' = { s with net := net, inbound := receive s l, news := report p s l } := by
  simp only [step] at h
  split at h
  next sent =>
    obtain ⟨net, taken, rfl⟩ := Option.map_eq_some_iff.mp h
    exact ⟨sent, net, taken, rfl⟩
  · cases h

theorem step_sendPacket {packet : Option Packet} (h : step p s (.sendPacket k packet) = some s') : s' = s ∨ ∃ q ∈ packet,
    s' = { s with senders := fun n => if n = k then s.senders n ++ [⟨q, .testConnected, payloadOf q⟩] else s.senders n } := by
  cases packet with
  | none => exact .inl (Option.some.inj h).symm
  | some q => exact .inr ⟨q, rfl, (Option.some.inj h).symm⟩

theorem step_sender (h : step p s (.sender k i rand ok) = some s') : ∃ x packet pc, (s.senders k)[i]? = some x ∧
    sendPacket (s.net.clients k) x.packet rand x.pc = some (packet, pc) ∧ s' = { s with
      senders := fun n => if n = k then (s.senders n).set i ⟨packet, pc, x.payload⟩ else s.senders n
      uplink := fun peer => if sendsOn (s.net.clients k) k ok x.pc = some peer then s.uplink peer ++ frameOf x.packet else s.uplink peer
      told := fun peer => if sendsOn (s.net.clients k) k ok x.pc = some peer then s.told peer ++ [x.payload] else s.told peer } := by
  obtain ⟨x, at_i, h⟩ := Option.bind_eq_some_iff.mp h
  obtain ⟨⟨packet, pc⟩, moved, rfl⟩ := Option.map_eq_some_iff.mp h
  exact ⟨x, packet, pc, at_i, moved, rfl⟩

/-- The network goes through a run of its own. -/
theorem run_net (run : Run (duplex p) (Proper p) tr s) : ∃ tr', Run (network p) (Network.Proper p) tr' s.net := by
  refine run.part State.net (fun s (started : Started p s) => started.net) fun s l s' proper h => ?_
  have h : step p s l = some s' := h
  cases l with
  | net l =>
    obtain ⟨-, net, taken, rfl⟩ := step_net h
    exact .inr ⟨l, proper.1, taken⟩
  | sendPacket k packet =>
    obtain rfl | ⟨q, -, rfl⟩ := step_sendPacket h
    · exact .inl rfl
    · exact .inl rfl
  | sender k i rand ok =>
    obtain ⟨x, packet, pc, -, -, rfl⟩ := step_sender h
    exact .inl rfl

end WanNet.Duplex
