import WanNet.Duplex.Uplink
import WanNet.Traffic.Received

/-!
`EchoServer`: what a client sends is sent back to it. Its `OnReceive` runs in the workers; everything
else that happens is as it is for any server.
-/

namespace WanNet.EchoServer
open Transition Serializer

/-- What `EchoServer::OnReceive` does next: `SendPacket(sessionID, packet)`, which is thread `i` of a slot once it has been
called, or `Serializer::Free(packet)`. -/
inductive OnReceive where
  | sendPacket | sending (key i : Nat) | free
  deriving DecidableEq

structure Handler where
  key : Nat
  thread : Nat
  sessionID : Nat
  packet : Nat
  pc : OnReceive := .sendPacket
  /-- bookkeeping: what has come in the packet, and on which socket -/
  payload : List UInt8
  socket : Nat

structure State where
  net : Duplex.State
  handlers : List Handler := []

def State.traffic (s : State) : Traffic.State := s.net.net.server

def State.server (s : State) : Server.NetServer := s.traffic.server

structure Mover where
  key : Nat
  i : Nat
  v : Session.Slot
  t : Session.Thread

def mover (s : State) : Duplex.Label → Option Mover
  | .net (.server (.server (.at key (.thread i _)) _) _) => (Traffic.threadAt s.server key i).map fun x => ⟨key, i, x.1, x.2⟩
  | _ => none

/-- What the server's application does, and here `OnReceive` alone. -/
def applies : Duplex.Label → Bool
  | .net (.server (.alloc _) _) | .net (.server (.free _) _) | .net (.server (.use _ _) _) => true
  | .net (.server (.server (.call _ _) _) _) => true
  | _ => false

/-- A worker goes on when its `OnReceive` has returned. -/
def Returned (s : State) (l : Duplex.Label) : Prop :=
  ∀ m ∈ mover s l, m.t.pc = .onReceiveReturn → ∀ h ∈ s.handlers, ¬ (h.key = m.key ∧ h.thread = m.i)

instance : Decidable (Returned s l) := inferInstanceAs (Decidable (∀ m ∈ mover s l, _))

/-- The call of `OnReceive` that a step makes. -/
def called (s : State) (l : Duplex.Label) : Option Handler :=
  (mover s l).bind fun m =>
    match m.t.pc with
    | .onReceive frame => (s.traffic.copied.find? fun c => c.key = m.key ∧ c.thread = m.i).map fun c =>
      { key := m.key, thread := m.i, sessionID := m.v.ID, packet := c.packet
        payload := (Serializer.decode (frame.map Session.RecvByte.byte)).getD [], socket := m.v.acceptedSocket }
    | _ => none

def Handler.send (h : Handler) : Network.Label := .server (.server (.call (.sendPacket (some h.packet)) h.sessionID) 0) ⟨0, 0⟩

def Handler.release (h : Handler) : Network.Label := .server (.free h.packet) ⟨0, 0⟩

def sendingAt (s : Server.NetServer) (sessionID : Nat) : OnReceive :=
  match Server.findSessionOrNull s sessionID with
  | some key => .sending key ((s.mSessionList[key]?).elim 0 fun v => v.threads.length)
  | none => .free

inductive Label where
  | net (l : Duplex.Label)
  | onReceive (n : Nat)

def step (p : Traffic.Params) (s : State) : Label → Option State
  | .net l =>
    if applies l = false ∧ Returned s l then
      (Duplex.step p s.net l).map fun net => { net := net, handlers := s.handlers ++ (called s l).toList }
    else none
  | .onReceive n =>
    (s.handlers[n]?).bind fun h =>
      match h.pc with
      | .sendPacket => (Duplex.step p s.net (.net h.send)).map fun net =>
        { net := net, handlers := s.handlers.set n { h with pc := sendingAt s.server h.sessionID } }
      | .sending key i =>
        if (Traffic.threadAt s.server key i).map (fun x => x.2.pc) = some .finished then
          some { s with handlers := s.handlers.set n { h with pc := .free } }
        else none
      | .free => (Duplex.step p s.net (.net h.release)).map fun net => { net := net, handlers := s.handlers.eraseIdx n }

structure Started (p : Traffic.Params) (s : State) : Prop where
  net : Duplex.Started p s.net
  unused : s.handlers = []

def echoServer (p : Traffic.Params) : System State Label where
  init := Started p
  step := step p

/-- Few references on every slot, room in every ring, and clients that connect in turn and send packets. -/
def Fair (p : Traffic.Params) (s : Duplex.State) : Duplex.Label → Prop
  | .net (.server (.server l j) peer) =>
    Server.FewEach p.server s.net.server.server l ∧ Duplex.Spacious s (.server (.server l j) peer)
  | .net (.server _ _) => True
  | .net (.client k l) => NetClient.InTurn (s.net.clients k) l ∧ NetClient.CleanRing (s.net.clients k) l
  | .sendPacket _ packet => ∀ q ∈ packet, Duplex.Sendable p q
  | .sender _ _ _ _ => True

instance : Decidable (Fair p s l) := by
  unfold Fair
  split <;> infer_instance

def Proper (p : Traffic.Params) (s : State) : Label → Prop
  | .net l => Fair p s.net l
  | .onReceive n => ∀ h ∈ s.handlers[n]?, h.pc = .sendPacket →
    Server.FewEach p.server s.server (.call (.sendPacket (some h.packet)) h.sessionID)

instance : Decidable (Proper p s l) :=
  match l with
  | .net _ => inferInstanceAs (Decidable (Fair _ _ _))
  | .onReceive n => inferInstanceAs (Decidable (∀ h ∈ s.handlers[n]?, _))

/-! ### The steps, read backwards -/

variable {p : Traffic.Params} {s s' : State} {n : Nat}

theorem step_net {l : Duplex.Label} (h : step p s (.net l) = some s') : applies l = false ∧ Returned s l ∧
    ∃ net, Duplex.step p s.net l = some net ∧ s' = { net := net, handlers := s.handlers ++ (called s l).toList } := by
  simp only [step] at h
  split at h
  next gate =>
    obtain ⟨net, taken, rfl⟩ := Option.map_eq_some_iff.mp h
    exact ⟨gate.1, gate.2, net, taken, rfl⟩
  · cases h

inductive Handles (p : Traffic.Params) (s : State) (n : Nat) (h : Handler) : State → Prop where
  | sends (at_ : h.pc = .sendPacket) (net : Duplex.State) (taken : Duplex.step p s.net (.net h.send) = some net) :
    Handles p s n h { net := net, handlers := s.handlers.set n { h with pc := sendingAt s.server h.sessionID } }
  | returns (key i : Nat) (at_ : h.pc = .sending key i) (v : Session.Slot) (t : Session.Thread)
      (there : Traffic.threadAt s.server key i = some (v, t)) (done : t.pc = .finished) :
    Handles p s n h { s with handlers := s.handlers.set n { h with pc := .free } }
  | frees (at_ : h.pc = .free) (net : Duplex.State) (taken : Duplex.step p s.net (.net h.release) = some net) :
    Handles p s n h { net := net, handlers := s.handlers.eraseIdx n }

theorem step_onReceive (h : step p s (.onReceive n) = some s') : ∃ x, s.handlers[n]? = some x ∧ Handles p s n x s' := by
  obtain ⟨x, at_n, h⟩ := Option.bind_eq_some_iff.mp h
  refine ⟨x, at_n, ?_⟩
  split at h
  next at_ =>
    obtain ⟨net, taken, rfl⟩ := Option.map_eq_some_iff.mp h
    exact .sends at_ net taken
  next key i at_ =>
    split at h
    next done =>
      obtain ⟨⟨v, t⟩, there, done⟩ := Option.map_eq_some_iff.mp done
      obtain rfl := Option.some.inj h
      exact .returns key i at_ v t there done
    · cases h
  next at_ =>
    obtain ⟨net, taken, rfl⟩ := Option.map_eq_some_iff.mp h
    exact .frees at_ net taken

end WanNet.EchoServer
