import Mathlib.Algebra.Group.Nat.Defs
import Mathlib.Data.List.Perm.Subperm
import Mathlib.Data.List.Nodup
import WanNet.Lib.Transition

/-!
The life of one `NetServer` object over any number of `Start` and `Shutdown` cycles: what they set
up and tear down, and the slot keys that `acceptThread` pops and `DecrementIoCount` pushes back.
-/

namespace WanNet.Lifecycle
open Transition

/-- The members of `NetServer` that `Start`, `Shutdown`, accepts and releases touch, less the OS
handles and the monitoring counters. -/
structure NetServer where
  mbIsRunning : Bool := false
  mbIsTcpNodelay : Bool := false
  mbIsSendBufferSizeZero : Bool := false
  mPort : Nat := 0
  mMaxPayloadLength : Nat := 0
  mMaxSessionCount : Nat := 0
  mThreadCount : Nat := 0
  mSessionAcceptedCount : Nat := 0
  mSessionDisconnectedCount : Nat := 0
  mSessionCount : Nat := 0
  /-- `LockFreeStack`, its top first. -/
  mUnusedSessionKeys : List Nat := []

def uint16Max : Nat := 0xFFFF

/-- `for (i = 0; i < mMaxSessionCount; ++i) mUnusedSessionKeys.Push(i)`. -/
def pushKeys (keys : List Nat) (mMaxSessionCount : Nat) : List Nat :=
  (List.range mMaxSessionCount).foldl (fun stack i => i :: stack) keys

/-- `none` is a failed `ASSERT_LIVE`. -/
def NetServer.start (s : NetServer) (port maxSessionCount iocpConcurrentThreadCount iocpWorkerThreadCount : Nat) :
    Option NetServer :=
  if iocpConcurrentThreadCount > 0 ∧ iocpWorkerThreadCount > 0 then
    some { s with
      mbIsRunning := true
      mPort := port
      mMaxSessionCount := maxSessionCount
      mThreadCount := (iocpWorkerThreadCount + 2) % 2 ^ 32
      mMaxPayloadLength := if s.mMaxPayloadLength = 0 then uint16Max else s.mMaxPayloadLength
      mUnusedSessionKeys := pushKeys s.mUnusedSessionKeys maxSessionCount }
  else none

/-- `Shutdown` resets every counter and limit; `mUnusedSessionKeys` is not among them. -/
def NetServer.shutdown (s : NetServer) : NetServer :=
  { s with
    mbIsRunning := false
    mbIsTcpNodelay := false
    mbIsSendBufferSizeZero := false
    mSessionAcceptedCount := 0
    mSessionDisconnectedCount := 0
    mPort := 0
    mMaxPayloadLength := 0
    mSessionCount := 0
    mMaxSessionCount := 0
    mThreadCount := 0 }

/-- A session between its accept and its release. -/
structure Live where
  key : Nat
  id : Nat

/-- The server and the sessions that live in its current `mSessionList`. -/
structure State where
  server : NetServer := {}
  live : List Live := []

/-- One round of `acceptThread` for a client: `TryPop` a key, or close the client when there is none. -/
def accept (s : State) : State :=
  match s.server.mUnusedSessionKeys with
  | [] => s
  | newSessionKey :: rest =>
    let count := (s.server.mSessionAcceptedCount + 1) % 2 ^ 64
    { server := { s.server with
        mUnusedSessionKeys := rest
        mSessionAcceptedCount := count
        mSessionCount := (s.server.mSessionCount + 1) % 2 ^ 32 }
      live := ⟨newSessionKey, (count &&& 0xFFFFFFFF) ||| (newSessionKey <<< 32)⟩ :: s.live }

/-- The release part of `DecrementIoCount` for the `i`-th live session. -/
def release (s : State) (i : Nat) : Option State :=
  match s.live[i]? with
  | none => none
  | some session => some {
      server := { s.server with
        mSessionDisconnectedCount := (s.server.mSessionDisconnectedCount + 1) % 2 ^ 64
        mSessionCount := (s.server.mSessionCount + 2 ^ 32 - 1) % 2 ^ 32
        mUnusedSessionKeys := session.key :: s.server.mUnusedSessionKeys }
      live := s.live.eraseIdx i }

inductive Op where
  | start (port maxSessionCount iocpConcurrentThreadCount iocpWorkerThreadCount : Nat)
  | accept
  | release (i : Nat)
  | shutdown

/-- `Shutdown` deletes `mSessionList`, and with it the sessions still live. -/
def step (s : State) : Op → Option State
  | .start port maxSessionCount concurrent workers =>
    if s.server.mbIsRunning then none
    else (s.server.start port maxSessionCount concurrent workers).map fun server => ⟨server, []⟩
  | .accept => if s.server.mbIsRunning then some (accept s) else none
  | .release i => if s.server.mbIsRunning then release s i else none
  | .shutdown => if s.server.mbIsRunning then some ⟨s.server.shutdown, []⟩ else none

/-- One object, from its constructor on. -/
def lifecycle : System State Op where
  init s := s = {}
  step := step

def State.liveKeys (s : State) : List Nat := s.live.map Live.key

/-- A key popped here indexes `mSessionList` and is no live session's. -/
def PopsUnsharedKey (s : State) (op : Op) : Prop :=
  op = .accept → ∀ key rest, s.server.mUnusedSessionKeys = key :: rest →
    key < s.server.mMaxSessionCount ∧ key ∉ s.liveKeys

/-- A key is popped here only while fewer than `mMaxSessionCount` sessions are live. -/
def PopsBelowMaximum (s : State) (op : Op) : Prop :=
  op = .accept → s.server.mUnusedSessionKeys ≠ [] → s.live.length < s.server.mMaxSessionCount

theorem pushKeys_eq (keys : List Nat) (n : Nat) : pushKeys keys n = (List.range n).reverse ++ keys := by
  unfold pushKeys
  generalize List.range n = fresh
  induction fresh generalizing keys with
  | nil => rfl
  | cons i fresh ih => simp [ih]

/-- The keys of this cycle lie on top of whatever earlier cycles left, and together with the live
sessions' keys they are `0 .. mMaxSessionCount - 1`. -/
def KeysOfCycle (s : State) : Prop :=
  (s.server.mbIsRunning = false → s.live = []) ∧
  (s.server.mbIsRunning = true → ∃ fresh leftover,
    s.server.mUnusedSessionKeys = fresh ++ leftover ∧
    (fresh ++ s.liveKeys).Perm (List.range s.server.mMaxSessionCount))

theorem accept_keysOfCycle {s : State} (running : s.server.mbIsRunning = true) (inv : KeysOfCycle s)
    (below : PopsBelowMaximum s .accept) : KeysOfCycle (accept s) := by
  obtain ⟨fresh, leftover, keys, perm⟩ := inv.2 running
  unfold accept
  cases popped : s.server.mUnusedSessionKeys with
  | nil => exact inv
  | cons key rest =>
    have room := below rfl (by simp [popped])
    have count := perm.length_eq
    simp only [List.length_append, State.liveKeys, List.length_map, List.length_range] at count
    -- below the maximum the top of the stack is a key of this cycle
    cases fresh with
    | nil => simp only [List.length_nil] at count; omega
    | cons top fresh =>
      rw [popped, List.cons_append] at keys
      obtain ⟨rfl, rfl⟩ := List.cons.inj keys
      refine ⟨fun stopped => by simp [running] at stopped, fun _ => ⟨fresh, leftover, rfl, ?_⟩⟩
      exact List.perm_middle.trans perm

theorem release_keysOfCycle {s t : State} {i : Nat} (running : s.server.mbIsRunning = true)
    (inv : KeysOfCycle s) (h : release s i = some t) : KeysOfCycle t := by
  obtain ⟨fresh, leftover, keys, perm⟩ := inv.2 running
  unfold release at h
  cases found : s.live[i]? with
  | none => simp [found] at h
  | some session =>
    simp only [found, Option.some.injEq] at h
    subst h
    obtain ⟨bound, same⟩ := List.getElem?_eq_some_iff.mp found
    refine ⟨fun stopped => by simp [running] at stopped, fun _ =>
      ⟨session.key :: fresh, leftover, by simp [keys], ?_⟩⟩
    have moved : (session.key :: (s.live.eraseIdx i).map Live.key).Perm s.liveKeys := by
      have whole := (List.getElem_cons_eraseIdx_perm bound).map Live.key
      rwa [same] at whole
    have shifted := (moved.append_left fresh).trans perm
    exact List.perm_middle.symm.trans shifted

theorem step_keysOfCycle {s t : State} {op : Op} (inv : KeysOfCycle s) (below : PopsBelowMaximum s op)
    (h : step s op = some t) : KeysOfCycle t := by
  cases op with
  | start port maxSessionCount concurrent workers =>
    simp only [step] at h
    split at h
    · cases h
    · obtain ⟨server, started, rfl⟩ := Option.map_eq_some_iff.mp h
      unfold NetServer.start at started
      split at started
      · obtain rfl := Option.some.inj started
        refine ⟨fun stopped => by simp at stopped, fun _ =>
          ⟨(List.range maxSessionCount).reverse, s.server.mUnusedSessionKeys, pushKeys_eq _ _, ?_⟩⟩
        simp only [State.liveKeys, List.map_nil, List.append_nil]
        exact List.reverse_perm _
      · cases started
  | accept =>
    simp only [step] at h
    split at h
    · obtain rfl := Option.some.inj h
      exact accept_keysOfCycle ‹_› inv below
    · cases h
  | release i =>
    simp only [step] at h
    split at h
    · exact release_keysOfCycle ‹_› inv h
    · cases h
  | shutdown =>
    simp only [step] at h
    split at h
    · obtain rfl := Option.some.inj h
      exact ⟨fun _ => rfl, fun running => by simp [NetServer.shutdown] at running⟩
    · cases h

theorem run_keysOfCycle {tr : List (State × Op)} {s : State} (h : Run lifecycle PopsBelowMaximum tr s) : KeysOfCycle s := by
  refine h.invariant_state ?_ fun s op t inv below taken => step_keysOfCycle inv below taken
  rintro _ rfl
  exact ⟨fun _ => rfl, fun running => by simp at running⟩

theorem liveKeys_of_cycle {s : State} (inv : KeysOfCycle s) :
    s.liveKeys.Nodup ∧ ∀ key ∈ s.liveKeys, key < s.server.mMaxSessionCount := by
  cases running : s.server.mbIsRunning with
  | false => simp [State.liveKeys, inv.1 running]
  | true =>
    obtain ⟨fresh, leftover, -, perm⟩ := inv.2 running
    have distinct := perm.nodup_iff.mpr List.nodup_range
    refine ⟨distinct.of_append_right, fun key member => ?_⟩
    exact List.mem_range.mp (perm.mem_iff.mp (List.mem_append_right fresh member))

/-- While the keys are those of the cycle, a pop is good exactly when the server is not full. -/
theorem popsUnsharedKey_iff {s : State} {op : Op} {t : State} (inv : KeysOfCycle s) (h : step s op = some t) :
    PopsUnsharedKey s op ↔ PopsBelowMaximum s op := by
  cases op with
  | accept =>
    have running : s.server.mbIsRunning = true := by
      by_contra stopped
      simp [step, stopped] at h
    obtain ⟨fresh, leftover, keys, perm⟩ := inv.2 running
    have count := perm.length_eq
    simp only [List.length_append, State.liveKeys, List.length_map, List.length_range] at count
    constructor
    · intro good _ some_key
      obtain ⟨key, rest, popped⟩ := List.exists_cons_of_ne_nil some_key
      obtain ⟨valid, unshared⟩ := good rfl key rest popped
      have member := perm.mem_iff.mpr (List.mem_range.mpr valid)
      rcases List.mem_append.mp member with unused | used
      · have := List.length_pos_of_mem unused
        omega
      · exact absurd used unshared
    · intro below _ key rest popped
      have room := below rfl (by simp [popped])
      cases fresh with
      | nil => simp only [List.length_nil] at count; omega
      | cons top fresh =>
        rw [popped, List.cons_append] at keys
        obtain ⟨rfl, -⟩ := List.cons.inj keys
        refine ⟨List.mem_range.mp (perm.mem_iff.mp (by simp)), fun used => ?_⟩
        have distinct := perm.nodup_iff.mpr List.nodup_range
        rw [List.cons_append] at distinct
        exact (List.nodup_cons.mp distinct).1 (List.mem_append_right fresh used)
  | start | release | shutdown => simp [PopsUnsharedKey, PopsBelowMaximum]

/-- The popped keys are valid and unshared throughout a run exactly when the server pops no key
while it is full, and then no two live sessions share a slot. -/
theorem keys_unshared_iff {tr : List (State × Op)} {s : State} :
    (Run lifecycle PopsUnsharedKey tr s ↔ Run lifecycle PopsBelowMaximum tr s) ∧
    (Run lifecycle PopsBelowMaximum tr s →
      s.liveKeys.Nodup ∧ ∀ key ∈ s.liveKeys, key < s.server.mMaxSessionCount) := by
  refine ⟨⟨fun h => ?_, fun h => ?_⟩, fun h => liveKeys_of_cycle (run_keysOfCycle h)⟩
  · induction h with
    | init start => exact .init start
    | step _ good taken ih =>
      exact .step ih ((popsUnsharedKey_iff (run_keysOfCycle ih) taken).mp good) taken
  · induction h with
    | init start => exact .init start
    | step run below taken ih =>
      exact .step ih ((popsUnsharedKey_iff (run_keysOfCycle run) taken).mpr below) taken

/-- A server restarted before its only client came holds key 0 twice. -/
def restarted : List Op := [.start 9000 1 1 1, .shutdown, .start 9000 1 1 1, .accept]

/-- A server restarted with a smaller limit still holds the larger keys. -/
def shrunk : List Op := [.start 9000 2 1 1, .shutdown, .start 9000 1 1 1, .accept]

/-- After `restarted` the next accept pops the key of a live session; after `shrunk` it pops a key
past the end of `mSessionList`. -/
theorem restart_pops_shared_key :
    ((exec lifecycle {} restarted).map fun s => (s.server.mUnusedSessionKeys, s.liveKeys)) = some ([0], [0]) ∧
    ((exec lifecycle {} shrunk).map fun s => (s.server.mUnusedSessionKeys, s.server.mMaxSessionCount)) =
      some ([1, 0], 1) ∧
    ¬ ∀ tr s op t, Run lifecycle Free tr s → lifecycle.step s op = some t → PopsUnsharedKey s op := by
  refine ⟨by decide, by decide, fun claim => ?_⟩
  obtain ⟨s, ran, keys⟩ : ∃ s, exec lifecycle {} restarted = some s ∧
      s.server.mUnusedSessionKeys = [0] ∧ s.liveKeys = [0] ∧ s.server.mbIsRunning = true :=
    ⟨_, rfl, by decide, by decide, rfl⟩
  have taken : lifecycle.step s .accept = some (accept s) := by simp [lifecycle, step, keys]
  obtain ⟨more, -, run⟩ := Run.exec (.init rfl) ran fun _ _ _ => trivial
  have good := claim _ s .accept _ run taken rfl 0 [] keys.1
  exact good.2 (by simp [keys])

end WanNet.Lifecycle
