import WanNet.Server.Lifecycle
import WanNet.Session.Identity

/-!
A running `NetServer`: the slots of `mSessionList`, the key stack, the counters, the accept thread,
and the API calls as `findSessionOrNull` routes them.
-/

namespace WanNet.Server
open Transition Session

/-- Sockets are numbered in the order in which clients are accepted. -/
structure NetServer where
  mSessionAcceptedCount : Nat := 0
  mSessionDisconnectedCount : Nat := 0
  mSessionCount : Nat := 0
  /-- `LockFreeStack`, its top first -/
  mUnusedSessionKeys : List Nat
  mSessionList : List Slot
  /-- bookkeeping: the clients accepted, the sockets that `TryClosesocket` closed, and the ID and the
  socket of every session -/
  clients : Nat := 0
  closed : List Nat := []
  opened : List (Nat × Nat) := []

/-- `new Session[mMaxSessionCount]`. -/
def NetServer.mMaxSessionCount (s : NetServer) : Nat := s.mSessionList.length

structure Params where
  mMaxPayloadLength : Nat
  decode : List UInt8 → Bool
  countsLater : Bool
  countWraps : Bool

def Params.config (p : Params) (key : Nat) : Config := ⟨key, p.mMaxPayloadLength, p.decode, p.countsLater, p.countWraps⟩

def findSessionOrNull (s : NetServer) (sessionID : Nat) : Option Nat :=
  let sessionKey := (sessionID >>> 32) % 2 ^ 32
  if sessionKey ≥ s.mMaxSessionCount then none else some sessionKey

/-- An API call as the application makes it; the packet may be `nullptr`. -/
inductive Request where
  | sendPacket (packet : Option Nat)
  | disconnect
  | sendAndDisconnect (packet : Option Nat)
  | getSessionAddress
  deriving DecidableEq

/-- What is left of the call past `if (packet == nullptr) return;`. -/
def Request.call : Request → Option Call
  | .sendPacket packet => packet.map .sendPacket
  | .disconnect => some .disconnect
  | .sendAndDisconnect packet => packet.map .sendAndDisconnect
  | .getSessionAddress => some .getSessionAddress

def effect (s : NetServer) (v : Slot) : Pc → NetServer
  | .acceptCount => { s with mSessionCount := inc32 s.mSessionCount }
  | .releaseClose _ => { s with closed := v.Socket :: s.closed }
  | .releaseDisconnectedCount _ => { s with mSessionDisconnectedCount := (s.mSessionDisconnectedCount + 1) % 2 ^ 64 }
  | .releaseSessionCount _ => { s with mSessionCount := dec32 s.mSessionCount }
  | .releasePush _ => { s with mUnusedSessionKeys := v.SessionListKey :: s.mUnusedSessionKeys }
  | _ => s

def NetServer.put (s : NetServer) (key : Nat) (v : Slot) : NetServer :=
  { s with mSessionList := s.mSessionList.set key v }

/-- The accept thread is done with the client before. -/
def Waiting (s : NetServer) : Prop :=
  ∀ v ∈ s.mSessionList, ∀ t ∈ v.threads, ∀ count sock address, t.role = .accept count sock address → t.pc = .finished

def Role.accepts : Role → Bool
  | .accept _ _ _ => true
  | _ => false

theorem waiting_iff (s : NetServer) :
    Waiting s ↔ ∀ v ∈ s.mSessionList, ∀ t ∈ v.threads, Role.accepts t.role = true → t.pc = .finished := by
  refine ⟨fun waiting v hv t ht accepts => ?_, fun waiting v hv t ht _ _ _ role => waiting v hv t ht (by rw [role]; rfl)⟩
  cases role : t.role with
  | accept count sock address => exact waiting v hv t ht count sock address role
  | _ => rw [role] at accepts; cases accepts

instance (s : NetServer) : Decidable (Waiting s) := decidable_of_iff' _ (waiting_iff s)

/-- What can happen next: a client connects, the application makes a call, or a slot takes a step of
another kind. -/
inductive Label where
  | accept (address : Nat)
  | call (request : Request) (sessionID : Nat)
  | at (key : Nat) (l : Session.Label)

def step (p : Params) (s : NetServer) : Label → Option NetServer
  | .accept address =>
    if Waiting s then
      match s.mUnusedSessionKeys with
      | [] => some { s with clients := s.clients + 1 }
      | newSessionKey :: rest =>
        let count := (s.mSessionAcceptedCount + 1) % 2 ^ 64
        let cfg := p.config newSessionKey
        (s.mSessionList[newSessionKey]?).bind fun v =>
          (Session.step cfg v (.accept count (s.clients + 1) address)).map fun v' =>
            { s.put newSessionKey v' with
              mUnusedSessionKeys := rest
              mSessionAcceptedCount := count
              clients := s.clients + 1
              opened := s.opened ++ [(newSessionID cfg count, s.clients + 1)] }
    else none
  | .call request sessionID =>
    match request.call, findSessionOrNull s sessionID with
    | some call, some sessionKey =>
      (s.mSessionList[sessionKey]?).bind fun v =>
        (Session.step (p.config sessionKey) v (.call call sessionID)).map (s.put sessionKey)
    | _, _ => some s
  | .at _ (.accept _ _ _) | .at _ (.call _ _) => none
  | .at key (.thread i ans) =>
    (s.mSessionList[key]?).bind fun v => (v.threads[i]?).bind fun t =>
      (Session.step (p.config key) v (.thread i ans)).map ((effect s v t.pc).put key)
  | .at key l =>
    (s.mSessionList[key]?).bind fun v => (Session.step (p.config key) v l).map (s.put key)

/-- What `Start` sets up, less the OS handles: the members of the slots other than `bDisconnected`
are as `new` leaves them, `IoCount` and `RegisteredPacketCount` at 0. -/
structure Started (s : NetServer) : Prop where
  range : s.mMaxSessionCount < 2 ^ 32
  keys : s.mUnusedSessionKeys = Lifecycle.pushKeys [] s.mMaxSessionCount
  slots : ∀ v ∈ s.mSessionList, v.Fresh ∧ v.IoCount = 0
  counters : s.mSessionAcceptedCount = 0 ∧ s.mSessionDisconnectedCount = 0 ∧ s.mSessionCount = 0
  unused : s.clients = 0 ∧ s.closed = [] ∧ s.opened = []

def server (p : Params) : System NetServer Label where
  init := Started
  step := step p

/-- A server for one session, accepting every frame up to the default length. -/
def plainServer : Params := ⟨65535, fun _ => true, false, true⟩

def freshServer : NetServer := { mUnusedSessionKeys := [0], mSessionList := [unusedSlot] }

theorem freshServer_started : Started freshServer := by
  refine ⟨by decide, rfl, fun v member => ?_, ⟨rfl, rfl, rfl⟩, rfl, rfl, rfl⟩
  obtain rfl := List.mem_singleton.mp member
  exact ⟨unusedSlot_fresh, rfl⟩

def firstClient : List Label := .accept 9 :: List.replicate 15 (Label.at 0 (.thread 0 .go))

variable {p : Params} {s s' : NetServer} {key : Nat} {v : Slot}

theorem findSessionOrNull_of_issued (here : s.mSessionList[key]? = some v) (range : s.mMaxSessionCount < 2 ^ 32)
    (count : Nat) : findSessionOrNull s (newSessionID (p.config key) count) = some key := by
  have lt : key < s.mMaxSessionCount := (List.getElem?_eq_some_iff.mp here).1
  have shifted : newSessionID (p.config key) count >>> 32 = key := by
    rw [newSessionID_eq, Nat.shiftRight_eq_div_pow]
    show (key * 2 ^ 32 + _) / 2 ^ 32 = key
    omega
  unfold findSessionOrNull
  rw [shifted, Nat.mod_eq_of_lt (Nat.lt_trans lt range), if_neg (by omega)]

theorem findSessionOrNull_lt (found : findSessionOrNull s sessionID = some key) : ∃ v, s.mSessionList[key]? = some v := by
  unfold findSessionOrNull at found
  simp only at found
  split at found
  · cases found
  · obtain rfl := Option.some.inj found
    exact ⟨_, List.getElem?_eq_getElem (Nat.lt_of_not_le ‹_›)⟩

/-! ### The steps, read backwards -/

theorem step_accept (h : step p s (.accept address) = some s') :
    Waiting s ∧ (s.mUnusedSessionKeys = [] ∧ s' = { s with clients := s.clients + 1 } ∨
      ∃ newSessionKey rest v v', s.mUnusedSessionKeys = newSessionKey :: rest ∧ s.mSessionList[newSessionKey]? = some v ∧
        Session.step (p.config newSessionKey) v
          (.accept ((s.mSessionAcceptedCount + 1) % 2 ^ 64) (s.clients + 1) address) = some v' ∧
        s' = { s.put newSessionKey v' with
          mUnusedSessionKeys := rest
          mSessionAcceptedCount := (s.mSessionAcceptedCount + 1) % 2 ^ 64
          clients := s.clients + 1
          opened := s.opened ++ [(newSessionID (p.config newSessionKey) ((s.mSessionAcceptedCount + 1) % 2 ^ 64), s.clients + 1)] }) := by
  simp only [step] at h
  split at h
  next waiting =>
    refine ⟨waiting, ?_⟩
    split at h
    next none => exact .inl ⟨none, (Option.some.inj h).symm⟩
    next newSessionKey rest keys =>
      obtain ⟨v, here, h⟩ := Option.bind_eq_some_iff.mp h
      obtain ⟨v', taken, rfl⟩ := Option.map_eq_some_iff.mp h
      exact .inr ⟨_, _, v, v', keys, here, taken, rfl⟩
  next => cases h

theorem step_call (h : step p s (.call request sessionID) = some s') :
    (s' = s ∧ (request.call = none ∨ findSessionOrNull s sessionID = none)) ∨
      ∃ call key v v', request.call = some call ∧ findSessionOrNull s sessionID = some key ∧
        s.mSessionList[key]? = some v ∧ Session.step (p.config key) v (.call call sessionID) = some v' ∧ s' = s.put key v' := by
  simp only [step] at h
  split at h
  next call key is found =>
    obtain ⟨v, here, h⟩ := Option.bind_eq_some_iff.mp h
    obtain ⟨v', taken, rfl⟩ := Option.map_eq_some_iff.mp h
    exact .inr ⟨call, key, v, v', is, found, here, taken, rfl⟩
  next nowhere =>
    refine .inl ⟨(Option.some.inj h).symm, ?_⟩
    cases is : request.call with
    | none => exact .inl rfl
    | some call =>
      cases found : findSessionOrNull s sessionID with
      | none => exact .inr rfl
      | some key => exact absurd found (nowhere call key is)

theorem step_at (h : step p s (.at key l) = some s') : ∃ v v' w, s.mSessionList[key]? = some v ∧
    Session.step (p.config key) v l = some v' ∧ s' = w.put key v' ∧
    (w = s ∧ (∀ i ans, l ≠ .thread i ans) ∨
      ∃ i ans t, l = .thread i ans ∧ v.threads[i]? = some t ∧ w = effect s v t.pc) := by
  cases l with
  | accept | call => cases h
  | thread i ans =>
    obtain ⟨v, here, h⟩ := Option.bind_eq_some_iff.mp h
    obtain ⟨t, at_i, h⟩ := Option.bind_eq_some_iff.mp h
    obtain ⟨v', taken, rfl⟩ := Option.map_eq_some_iff.mp h
    exact ⟨v, v', _, here, taken, rfl, .inr ⟨i, ans, t, rfl, at_i, rfl⟩⟩
  | _ =>
    obtain ⟨v, here, h⟩ := Option.bind_eq_some_iff.mp h
    obtain ⟨v', taken, rfl⟩ := Option.map_eq_some_iff.mp h
    exact ⟨v, v', s, here, taken, rfl, .inl ⟨rfl, nofun⟩⟩

end WanNet.Server
