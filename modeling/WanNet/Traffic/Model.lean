import WanNet.Lib.RefPool
import WanNet.Serializer.Wire
import WanNet.Server.References

/-!
A server with its packets: the pool they come from, who has references on them, and what is in them
while the application fills them, `SendPacket` prepares them and workers copy frames into them.
-/

namespace WanNet.Traffic
open Transition Serializer RefPool

structure Params where
  mMaxPayloadLength : Nat
  countsLater : Bool

/-- `Serializer::decode` on a whole frame. -/
def decodes (frame : List UInt8) : Bool := (Serializer.decode frame).isSome

/-- The server of these packets; its queues count without bound. -/
def Params.server (p : Params) : Server.Params := ⟨p.mMaxPayloadLength, decodes, p.countsLater, false⟩

/-- How far a call is with `if (!packet->IsSendPrepared()) packet->prepareSend();`. -/
inductive Stage where
  | test | mark | header | encode | ready
  deriving DecidableEq

/-- A worker between its packet copy and `OnReceive`. -/
structure Copied where
  key : Nat
  thread : Nat
  packet : Nat
  deriving DecidableEq

structure State where
  server : Server.NetServer
  /-- the objects of `l_packetPool` -/
  pool : Pool Packet
  /-- the references that the application has -/
  refs : Nat → Nat := fun _ => 0
  copied : List Copied := []
  /-- by slot and thread -/
  stage : Nat → Nat → Stage := fun _ _ => .test
  /-- bookkeeping: what was in a packet when `prepareSend` was called -/
  payload : Nat → List UInt8 := fun _ => []

def references (q : Packet) : Nat := q.mRefCount.toNat

namespace State

def put (s : State) (packet : Nat) (q : Packet) : State := { s with pool := s.pool.set packet q }

def addRef (s : State) (packet : Nat) : State := s.put packet (s.pool.object packet).incrementRefCount

/-- `DecrementRefCount`. -/
def release (s : State) (packet : Nat) : State :=
  { s with pool := s.pool.drop references packet (s.pool.object packet).decrementRefCount }

def grant (s : State) (packet : Nat) : State := { s with refs := fun n => if n = packet then s.refs n + 1 else s.refs n }

def yields (s : State) (packet : Nat) : State := { s with refs := fun n => if n = packet then s.refs n - 1 else s.refs n }

def reach (s : State) (key i : Nat) (stage : Stage) : State :=
  { s with stage := fun k j => if k = key ∧ j = i then stage else s.stage k j }

end State

/-- The bytes behind the header. -/
def contents (q : Packet) : List UInt8 := (Block.read q.memory NetworkHeader.size q.mSize.toNat).getD []

/-- The next step of `SendPacket` between its tests and `IncrementRefCount`; `rand` is what `rand()`
returns. -/
def prepare (s : State) (key i packet : Nat) (rand : UInt8) : Option State :=
  let q := s.pool.object packet
  match s.stage key i with
  | .test => some (s.reach key i (if q.mbSendPrepared then .ready else .mark))
  | .mark => some { (s.put packet { q with mbSendPrepared := true }).reach key i .header with
      payload := fun n => if n = packet then contents q else s.payload n }
  | .header => (q.setHeaderValue rand).toOption.map fun q => (s.put packet q).reach key i .encode
  | .encode => q.encode.toOption.map fun q => (s.put packet q).reach key i .ready
  | .ready => none

/-- From the packet copy to `decode`, where a turn of the packet loop gets there; `j` is the choice of
the pool. -/
def copyFrame (p : Params) (s : State) (key i : Nat) (rb : RingBuffer Session.RecvByte) (j : Nat) : Option State :=
  match Session.packetLoop p.mMaxPayloadLength (fun _ => true) rb with
  | .deliver frame _ =>
    let packet := (s.pool.take j).1
    match (s.pool.object packet).receive (frame.map Session.RecvByte.byte) (UInt16.ofNat (Session.headerLength frame)) with
    | .ok (q, ok) =>
      let s' := { s with pool := (s.pool.take j).2.set packet q }
      some (if ok then { s' with copied := s.copied ++ [⟨key, i, packet⟩] } else s'.release packet)
    | .error _ => none
  | _ => some s

/-- `OnReceive` gets the packet and the worker's reference. -/
def handOver (s : State) (key i : Nat) : State :=
  match s.copied.find? (fun c => c.key = key ∧ c.thread = i) with
  | some c => { s with copied := s.copied.erase c }.grant c.packet
  | none => s

/-- What a thread's step does with packets. -/
def effect (p : Params) (s : State) (key i : Nat) (v : Session.Slot) (t : Session.Thread) (j : Nat) : Option State :=
  match t.pc with
  | .callAddRef => if s.stage key i = .ready then some ((Session.incremented t).elim s s.addRef) else none
  | .recvLoop => copyFrame p s key i v.RecvBuffer j
  | .onReceive _ => some (handOver s key i)
  | pc => some ((Session.decremented (p.server.config key) v pc).elim s s.release)

/-- What can happen next: the application allocates, frees or uses a packet, a call takes a step of
its preparation, or the server takes a step. -/
inductive Label where
  | alloc (j : Nat)
  | free (packet : Nat)
  | use (packet : Nat) (call : Serializer.Call)
  | prepare (key i : Nat) (rand : UInt8)
  | server (l : Server.Label) (j : Nat)

def threadAt (s : Server.NetServer) (key i : Nat) : Option (Session.Slot × Session.Thread) :=
  (s.mSessionList[key]?).bind fun v => (v.threads[i]?).map fun t => (v, t)

def act (p : Params) (s : State) (l : Server.Label) (j : Nat) : Option State :=
  match l with
  | .at key (.thread i _) => (threadAt s.server key i).bind fun x => effect p s key i x.1 x.2 j
  | _ => some s

def step (p : Params) (s : State) : Label → Option State
  | .alloc j =>
    let packet := (s.pool.take j).1
    some ({ s with pool := (s.pool.take j).2.set packet (s.pool.object packet).alloc }.grant packet)
  | .free packet => some ((s.yields packet).release packet)
  | .use packet call => ((s.pool.object packet).call call).toOption.map fun r => s.put packet r.1
  | .prepare key i rand =>
    (threadAt s.server key i).bind fun x => (Session.incremented x.2).bind fun packet => prepare s key i packet rand
  | .server l j => (act p s l j).bind fun s' => (Server.step p.server s.server l).map fun server => { s' with server := server }

/-- The server that `Start` has just set up, and no packet made yet. -/
structure Started (p : Params) (s : State) : Prop where
  server : (Server.startedServer p.server).init s.server
  pool : s.pool.freed = [] ∧ s.pool.made = 0 ∧ ∀ n, references (s.pool.object n) = 0
  unused : (∀ n, s.refs n = 0) ∧ s.copied = []
  stages : ∀ key i, s.stage key i = .test

def traffic (p : Params) : System State Label where
  init := Started p
  step := step p

/-! ### What the application keeps to -/

/-- The packet that a `SendPacket` or `SendAndDisconnect` was called with. -/
def packetOf (t : Session.Thread) : Option Nat :=
  match t.role with
  | .api (.sendPacket packet) _ | .api (.sendAndDisconnect packet) _ => some packet
  | _ => none

/-- Before the call has a reference of its own. -/
def beforeAddRef : Session.Pc → Bool
  | .callIncrement | .callTestDisconnected | .callTestRegistered | .callTestID | .callRegister | .callAddRef => true
  | _ => false

/-- A call is using the packet on its caller's reference. -/
def borrows (packet : Nat) (t : Session.Thread) : Bool := packetOf t = some packet && beforeAddRef t.pc

def Borrowed (s : State) (packet : Nat) : Prop := ∃ v ∈ s.server.mSessionList, ∃ t ∈ v.threads, borrows packet t = true

instance : Decidable (Borrowed s packet) := inferInstanceAs (Decidable (∃ v ∈ s.server.mSessionList, ∃ t ∈ v.threads, _))

def passed : Server.Label → Option Nat
  | .call (.sendPacket packet) _ | .call (.sendAndDisconnect packet) _ => packet
  | _ => none

/-- The application frees, uses and sends only what it has a reference on, and frees its last reference
only when the calls under way have theirs; and the counts stay in their ranges. -/
def Owns (p : Params) (s : State) : Label → Prop
  | .alloc _ | .prepare _ _ _ => True
  | .free packet => 0 < s.refs packet ∧ (s.refs packet = 1 → ¬ Borrowed s packet)
  | .use packet _ => 0 < s.refs packet
  | .server l _ => (Server.FewEach p.server s.server l ∧ Server.InTime p.server s.server l) ∧
      (∀ packet ∈ passed l, 0 < s.refs packet) ∧
      ∀ packet ∈ Server.incrementOf (s.server, l), references (s.pool.object packet) + 1 < 2 ^ 32

instance : Decidable (Owns p s l) :=
  match l with
  | .alloc _ | .prepare _ _ _ => .isTrue trivial
  | .free _ => inferInstanceAs (Decidable (_ ∧ (_ → _)))
  | .use _ _ => inferInstanceAs (Decidable (_ < _))
  | .server l _ => inferInstanceAs (Decidable (_ ∧ (∀ packet ∈ passed l, _) ∧ ∀ packet ∈ Server.incrementOf (s.server, l), _))

/-! ### The steps, read backwards -/

variable {p : Params} {s s' : State} {v : Session.Slot} {t : Session.Thread} {key i j packet : Nat} {rand : UInt8}

theorem incremented_iff : Session.incremented t = some packet ↔ t.pc = .callAddRef ∧ packetOf t = some packet := by
  obtain ⟨role, pc⟩ := t
  by_cases here : pc = .callAddRef
  · subst here
    rcases role with ⟨_ | _ | _ | _, _⟩ | _ | _ <;> simp [Session.incremented, packetOf]
  · have none : Session.incremented ⟨role, pc⟩ = none := by
      cases pc
      all_goals first
        | rfl
        | exact absurd rfl here
    rw [none]
    constructor
    · intro is
      cases is
    · rintro ⟨at_, -⟩
      exact absurd at_ here

theorem threadAt_some {s : Server.NetServer} (is : threadAt s key i = some (v, t)) :
    s.mSessionList[key]? = some v ∧ v.threads[i]? = some t := by
  obtain ⟨v', here, is⟩ := Option.bind_eq_some_iff.mp is
  obtain ⟨t', at_i, is⟩ := Option.map_eq_some_iff.mp is
  obtain ⟨rfl, rfl⟩ := Prod.mk.inj is
  exact ⟨here, at_i⟩

theorem copyFrame_cases {rb : RingBuffer Session.RecvByte} (h : copyFrame p s key i rb j = some s') :
    s' = s ∨ ∃ packet pool frame rest q ok, s.pool.take j = (packet, pool) ∧
      Session.packetLoop p.mMaxPayloadLength (fun _ => true) rb = .deliver frame rest ∧
      (s.pool.object packet).receive (frame.map Session.RecvByte.byte) (UInt16.ofNat (Session.headerLength frame)) = .ok (q, ok) ∧
      (ok = true ∧ s' = { s with pool := pool.set packet q, copied := s.copied ++ [⟨key, i, packet⟩] } ∨
        ok = false ∧ s' = { s with pool := pool.set packet q }.release packet) := by
  unfold copyFrame at h
  split at h
  next frame rest reads =>
    simp only at h
    split at h
    next q ok received =>
      refine .inr ⟨_, _, frame, rest, q, ok, rfl, reads, received, ?_⟩
      obtain rfl := Option.some.inj h
      cases ok with
      | true => exact .inl ⟨rfl, rfl⟩
      | false => exact .inr ⟨rfl, rfl⟩
    · cases h
  · exact .inl (Option.some.inj h).symm

theorem handOver_cases (s : State) (key i : Nat) :
    handOver s key i = s ∨ ∃ c ∈ s.copied, c.key = key ∧ c.thread = i ∧
      handOver s key i = { s with copied := s.copied.erase c }.grant c.packet := by
  unfold handOver
  split
  next c found =>
    have is := List.find?_some found
    simp only [decide_eq_true_eq] at is
    exact .inr ⟨c, List.mem_of_find?_eq_some found, is.1, is.2, rfl⟩
  · exact .inl rfl

theorem toOption_eq_some {α : Type} {r : Except Fault α} {a : α} (h : r.toOption = some a) : r = .ok a := by
  cases r with
  | error fault => cases h
  | ok b =>
    obtain rfl := Option.some.inj h
    rfl

inductive Prepares (s : State) (key i packet : Nat) (rand : UInt8) : State → Prop where
  | tests (at_ : s.stage key i = .test) :
      Prepares s key i packet rand (s.reach key i (if (s.pool.object packet).mbSendPrepared then .ready else .mark))
  | marks (at_ : s.stage key i = .mark) :
      Prepares s key i packet rand { (s.put packet { s.pool.object packet with mbSendPrepared := true }).reach key i .header with
        payload := fun n => if n = packet then contents (s.pool.object packet) else s.payload n }
  | writesHeader (q : Packet) (at_ : s.stage key i = .header) (set : (s.pool.object packet).setHeaderValue rand = .ok q) :
      Prepares s key i packet rand ((s.put packet q).reach key i .encode)
  | encodes (q : Packet) (at_ : s.stage key i = .encode) (encodes : (s.pool.object packet).encode = .ok q) :
      Prepares s key i packet rand ((s.put packet q).reach key i .ready)

theorem prepare_cases (h : prepare s key i packet rand = some s') : Prepares s key i packet rand s' := by
  unfold prepare at h
  simp only at h
  split at h
  next at_ =>
    obtain rfl := Option.some.inj h
    exact .tests at_
  next at_ =>
    obtain rfl := Option.some.inj h
    exact .marks at_
  next at_ =>
    obtain ⟨q, set, rfl⟩ := Option.map_eq_some_iff.mp h
    exact .writesHeader q at_ (toOption_eq_some set)
  next at_ =>
    obtain ⟨q, encodes, rfl⟩ := Option.map_eq_some_iff.mp h
    exact .encodes q at_ (toOption_eq_some encodes)
  · cases h

inductive Acts (p : Params) (s : State) (l : Server.Label) (j : Nat) : State → Prop where
  | retains (packet : Nat) (incs : Server.incrementOf (s.server, l) = some packet) (decs : Server.decrementOf p.server (s.server, l) = none)
      (ready : ∀ key i ans, l = .at key (.thread i ans) → s.stage key i = .ready) : Acts p s l j (s.addRef packet)
  | releases (packet : Nat) (incs : Server.incrementOf (s.server, l) = none) (decs : Server.decrementOf p.server (s.server, l) = some packet) :
      Acts p s l j (s.release packet)
  | copies (key i : Nat) (ans : Session.Answer) (v : Session.Slot) (t : Session.Thread) (is : l = .at key (.thread i ans))
      (here : threadAt s.server key i = some (v, t)) (at_ : t.pc = .recvLoop) (after : State)
      (copied : copyFrame p s key i v.RecvBuffer j = some after) : Acts p s l j after
  | handsOver (key i : Nat) (ans : Session.Answer) (v : Session.Slot) (t : Session.Thread) (frame : List Session.RecvByte)
      (is : l = .at key (.thread i ans)) (here : threadAt s.server key i = some (v, t)) (at_ : t.pc = .onReceive frame) :
      Acts p s l j (handOver s key i)
  | aside (incs : Server.incrementOf (s.server, l) = none) (decs : Server.decrementOf p.server (s.server, l) = none) : Acts p s l j s

theorem act_cases (h : act p s l j = some s') : Acts p s l j s' := by
  unfold act at h
  split at h
  next key i ans =>
    obtain ⟨⟨v, t⟩, there, h⟩ := Option.bind_eq_some_iff.mp h
    obtain ⟨here, at_i⟩ := threadAt_some there
    obtain ⟨incs, decs⟩ := Server.thread_events (p := p.server) ans here at_i
    have h : effect p s key i v t j = some s' := h
    unfold effect at h
    split at h
    next at_ =>
      split at h
      next ready =>
        obtain rfl := Option.some.inj h
        have none : Session.decremented (p.server.config key) v t.pc = none := by
          rw [show t.pc = .callAddRef from at_]
          rfl
        rw [none] at decs
        cases is : Session.incremented t with
        | none =>
          rw [is] at incs
          exact .aside incs decs
        | some packet =>
          rw [is] at incs
          refine .retains packet incs decs ?_
          rintro _ _ _ ⟨⟩
          exact ready
      · cases h
    next at_ => exact .copies key i ans v t rfl there at_ s' h
    next frame at_ =>
      obtain rfl := Option.some.inj h
      exact .handsOver key i ans v t frame rfl there at_
    next elsewhere _ _ =>
      obtain rfl := Option.some.inj h
      have none : Session.incremented t = none := by
        cases is : Session.incremented t with
        | none => rfl
        | some packet => exact absurd (incremented_iff.mp is).1 elsewhere
      rw [none] at incs
      cases is : Session.decremented (p.server.config key) v t.pc with
      | none =>
        rw [is] at decs
        exact .aside incs decs
      | some packet =>
        rw [is] at decs
        exact .releases packet incs decs
  next outside =>
    obtain rfl := Option.some.inj h
    obtain ⟨incs, decs⟩ := Server.quiet_events (s := s.server) (l := l) outside
    exact .aside incs decs

end WanNet.Traffic
