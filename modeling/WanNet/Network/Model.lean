import WanNet.NetClient.Delivery
import WanNet.Session.Outbox
import WanNet.Traffic.Contents

/-!
A server and its clients. What sessions give to `WSASend` comes in at the clients' `recv`, over
connections that keep the order of the bytes and lose none, but may stop anywhere.
-/

namespace WanNet.Network
open Transition

/-- A client's end of a connection: the client, and the call of its `Connect`. -/
structure Peer where
  client : Nat
  connection : Nat
  deriving DecidableEq

structure State where
  server : Traffic.State
  clients : Nat → NetClient.Client
  /-- who has been accepted; the n-th has socket n at the server -/
  peers : List Peer := []
  /-- by socket, the bytes that `WSASend` has taken -/
  outgoing : Nat → List UInt8 := fun _ => []
  /-- bookkeeping: by socket, the payloads of the packets that were enqueued for its session and of those that
  `WSASend` has taken -/
  outbox : Nat → Session.Outbox (List UInt8) := fun _ => {}

/-- The bytes that a connection brings to its client. -/
def State.incoming (s : State) (peer : Peer) : List UInt8 :=
  if peer ∈ s.peers then s.outgoing (s.peers.idxOf peer + 1) else []

def payloads (s : Traffic.State) (q : Session.Queued) : List UInt8 := s.payload q.packet

/-- The bytes that the entries of a `wsabuf` point to. They are read at the call here, and may be read up to the
completion: no step changes them in between. -/
def bytes (s : Traffic.State) (wsabuf : List Session.Queued) : List UInt8 :=
  wsabuf.flatMap fun q => (s.pool.object q.packet).sent.toOption.getD []

def accepts : Traffic.Label → Bool
  | .server (.accept _) _ => true
  | _ => false

/-- `outgoing` after a step of the server. -/
def transmit (s : State) : Traffic.Label → Nat → List UInt8
  | .server (.at key (.thread i ans)) _ => fun w =>
    match Traffic.threadAt s.server.server key i with
    | some (v, t) => if w = v.Socket then s.outgoing w ++ bytes s.server (Session.given t ans) else s.outgoing w
    | none => s.outgoing w
  | _ => s.outgoing

/-- `outbox` after a step of the server. -/
def record (s : State) : Traffic.Label → Nat → Session.Outbox (List UInt8)
  | .server (.at key l) _ => fun w =>
    match s.server.server.mSessionList[key]? with
    | some v => if w = v.acceptedSocket then (s.outbox w).add (payloads s.server) v l else s.outbox w
    | none => s.outbox w
  | _ => s.outbox

/-- The bytes that a client's step takes from a connection. -/
def received (c : NetClient.Client) : NetClient.Label → Option (Nat × List UInt8)
  | .thread i (.bytes data) =>
    match c.threads[i]? with
    | some (.recvThread _ (.recv socket) _) => (c.sockets.lookup socket).map fun connection => (connection, data)
    | _ => none
  | _ => none

/-- What can happen next: the server takes a step, or a client. `peer` is whom the server accepts, if it does. -/
inductive Label where
  | server (l : Traffic.Label) (peer : Peer)
  | client (k : Nat) (l : NetClient.Label)

def step (p : Traffic.Params) (s : State) : Label → Option State
  | .server l peer =>
    if accepts l = true ∧ peer ∈ s.peers then none
    else
      (Traffic.step p s.server l).map fun server => { s with
        server := server
        peers := if accepts l = true then s.peers ++ [peer] else s.peers
        outgoing := transmit s l
        outbox := record s l }
  | .client k l =>
    if ∀ x ∈ received (s.clients k) l, (s.clients k).streams x.1 ++ x.2 <+: s.incoming ⟨k, x.1⟩ then
      (NetClient.step (s.clients k) l).map fun c => { s with clients := fun n => if n = k then c else s.clients n }
    else none

structure Started (p : Traffic.Params) (s : State) : Prop where
  server : Traffic.Started p s.server
  clients : ∀ k, NetClient.client.init (s.clients k)
  unused : s.peers = [] ∧ (∀ w, s.outgoing w = []) ∧ ∀ w, s.outbox w = {}

def network (p : Traffic.Params) : System State Label where
  init := Started p
  step := step p

/-- The server's application keeps to its packets, and every client connects in turn and leaves a cell of its ring free. -/
def Proper (p : Traffic.Params) (s : State) : Label → Prop
  | .server l _ => Traffic.Proper p s.server l
  | .client k l => NetClient.InTurn (s.clients k) l ∧ NetClient.CleanRing (s.clients k) l

instance : Decidable (Proper p s l) :=
  match l with
  | .server _ _ => inferInstanceAs (Decidable (Traffic.Proper _ _ _))
  | .client _ _ => inferInstanceAs (Decidable (_ ∧ _))

/-! ### The steps, read backwards -/

variable {p : Traffic.Params} {s s' : State} {k : Nat}

theorem step_server {l : Traffic.Label} {peer : Peer} (h : step p s (.server l peer) = some s') :
    (accepts l = true → peer ∉ s.peers) ∧ ∃ server, Traffic.step p s.server l = some server ∧
      s' = { s with
        server := server
        peers := if accepts l = true then s.peers ++ [peer] else s.peers
        outgoing := transmit s l
        outbox := record s l } := by
  simp only [step] at h
  split at h
  · cases h
  next new =>
    obtain ⟨server, taken, rfl⟩ := Option.map_eq_some_iff.mp h
    exact ⟨fun accepting old => new ⟨accepting, old⟩, server, taken, rfl⟩

theorem step_client {l : NetClient.Label} (h : step p s (.client k l) = some s') :
    (∀ x ∈ received (s.clients k) l, (s.clients k).streams x.1 ++ x.2 <+: s.incoming ⟨k, x.1⟩) ∧
      ∃ c, NetClient.step (s.clients k) l = some c ∧
        s' = { s with clients := fun n => if n = k then c else s.clients n } := by
  simp only [step] at h
  split at h
  next brought =>
    obtain ⟨c, taken, rfl⟩ := Option.map_eq_some_iff.mp h
    exact ⟨brought, c, taken, rfl⟩
  · cases h

/-- The server goes through a run of its own, and so does every client. -/
theorem run_server (run : Run (network p) (Proper p) tr s) :
    ∃ tr', Run (Traffic.traffic p) (Traffic.Proper p) tr' s.server := by
  refine run.part State.server (fun s (started : Started p s) => started.server) fun s l s' proper h => ?_
  have h : step p s l = some s' := h
  cases l with
  | server l peer =>
    obtain ⟨-, server, taken, rfl⟩ := step_server h
    exact .inr ⟨l, proper, taken⟩
  | client k l =>
    obtain ⟨-, c, -, rfl⟩ := step_client h
    exact .inl rfl

theorem run_client (k : Nat) (run : Run (network p) (Proper p) tr s) :
    ∃ tr', Run NetClient.client (fun s l => NetClient.InTurn s l ∧ NetClient.CleanRing s l) tr' (s.clients k) := by
  refine run.part (fun s => s.clients k) (fun s (started : Started p s) => started.clients k) fun s l s' proper h => ?_
  have h : step p s l = some s' := h
  cases l with
  | server l peer =>
    obtain ⟨-, server, -, rfl⟩ := step_server h
    exact .inl rfl
  | client n l =>
    obtain ⟨-, c, taken, rfl⟩ := step_client h
    by_cases here : k = n
    · subst here
      refine .inr ⟨l, proper, ?_⟩
      show NetClient.step (s.clients k) l = some (if k = k then c else s.clients k)
      rw [taken, if_pos rfl]
    · exact .inl (if_neg here)

end WanNet.Network
