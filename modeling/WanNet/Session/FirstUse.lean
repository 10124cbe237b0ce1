import WanNet.Session.References

/-!
The first session of a slot: `new Session[mMaxSessionCount]`, `Start`, and the accept thread's first
`IncrementIoCount` and `Init`.
-/

namespace WanNet.Session
open Transition

/-- What the memory of a new `Session` happens to hold. -/
structure Leftover where
  ID : UInt64
  Socket : UInt64
  Address : Nat
  IoCount : UInt32
  bSendFlag : UInt32
  SessionListKey : UInt32
  bDisconnected : Bool
  bDisconnectRegistered : Bool
  RegisteredPacketCount : UInt32
  RegisteredPackets : Nat → Queued
  /-- the cells that the constructor of `RecvBuffer` allocates -/
  mBuffer : Int → RecvByte

/-- `Session(void) = default`: only `RecvBuffer` and `SendQueue` have constructors of their own. -/
def newSession (m : Leftover) : Slot where
  ID := m.ID.toNat
  Socket := m.Socket.toNat
  Address := m.Address
  IoCount := m.IoCount.toNat
  bSendFlag := m.bSendFlag.toNat
  SessionListKey := m.SessionListKey.toNat
  bDisconnected := m.bDisconnected
  bDisconnectRegistered := m.bDisconnectRegistered
  RecvBuffer := .new m.mBuffer RingBuffer.defaultSize RingBuffer.defaultSize_range
  RegisteredPacketCount := m.RegisteredPacketCount.toNat
  RegisteredPackets := m.RegisteredPackets
  unusedKeys := 0

def start (s : Slot) : Slot := { s with bDisconnected := true, unusedKeys := s.unusedKeys + 1 }

def firstUse (cfg : Config) (m : Leftover) : System Slot Label where
  init s := s = start (newSession m)
  step := step cfg

/-- The first round of the accept thread, and no other call. -/
def AcceptOnly (s : Slot) : Label → Prop
  | .accept _ _ _ => s.threads = []
  | .thread _ _ => True
  | _ => False

def Initialised (s : Slot) : Prop := ∃ count sock address, s.threads = [⟨.accept count sock address, .acceptCount⟩]

def drops (cfg : Config) (s : Slot) : Label → Option Nat
  | .thread i _ => (s.threads[i]?).bind fun t => decremented cfg s t.pc
  | _ => none

def dropped (cfg : Config) (tr : List (Slot × Label)) : List Nat := tr.filterMap fun x => drops cfg x.1 x.2

variable {cfg : Config} {m : Leftover} {s s' u : Slot} {role : Role} {ans : Answer} {pc pc' : Pc} {l : Label}
  {tr : List (Slot × Label)}

/-- The counter after `IncrementIoCount` and the mask of `Init`. -/
def firstCount (m : Leftover) : Nat := inc32 m.IoCount.toNat &&& 0x7FFFFFFF

theorem firstCount_eq (m : Leftover) : firstCount m = (m.IoCount.toNat + 1) % 2 ^ 31 := by
  have mask : firstCount m = inc32 m.IoCount.toNat % 2 ^ 31 := Nat.and_two_pow_sub_one_eq_mod _ 31
  rw [mask]
  unfold inc32
  omega

theorem firstCount_one (m : Leftover) : firstCount m = 1 ↔ m.IoCount.toNat % 2 ^ 31 = 0 := by
  rw [firstCount_eq]
  omega

/-! ### What the memory left shows up in -/

/-- What the accept thread finds in the slot at each point up to the end of `Init`, when the packets
in `past` have been dropped. -/
def Stage (m : Leftover) (s : Slot) (past : List Nat) : Pc → Prop
  | .acceptIncrement => s.IoCount = m.IoCount.toNat ∧ s.SendQueueCount = 0 ∧ past = [] ∧
      s.RegisteredPacketCount = m.RegisteredPacketCount.toNat
  | .initClearFlag => s.IoCount = inc32 m.IoCount.toNat ∧ s.SendQueueCount = 0 ∧ past = [] ∧
      s.RegisteredPacketCount = m.RegisteredPacketCount.toNat
  | .initID | .initSocket | .initAddress | .initSendFlag | .initKey | .initDisconnected | .initRegistered
  | .initRecvBuffer | .initDrain => s.IoCount = firstCount m ∧ s.SendQueueCount = 0 ∧ past = [] ∧
      s.RegisteredPacketCount = m.RegisteredPacketCount.toNat
  | .initDropRefs i => s.IoCount = firstCount m ∧ past.length = i ∧ i ≤ s.RegisteredPacketCount ∧
      s.RegisteredPacketCount = m.RegisteredPacketCount.toNat
  | .initRegisteredCount | .acceptCount => s.IoCount = firstCount m ∧ past.length = m.RegisteredPacketCount.toNat
  | _ => True

theorem Stage.after {past : List Nat} (begun : pc.initialises = false) : Stage m s past pc := by
  cases pc <;> simp only [Pc.initialises, Bool.true_eq_false] at begun <;> trivial

theorem Stage.next {past : List Nat} (stage : Stage m s past pc) (taken : next cfg s role ans pc = some (s', pc')) :
    Stage m s' (past ++ (decremented cfg s pc).toList) pc' := by
  by_cases init : pc.initialises = true
  · cases pc <;> simp only [Pc.initialises, Bool.false_eq_true] at init
    case initDropRefs i =>
      obtain ⟨count, length, le, regs⟩ := stage
      cases taken
      by_cases more : i < s.RegisteredPacketCount
      · have step : (past ++ (decremented cfg s (.initDropRefs i)).toList).length = i + 1 := by
          simp only [decremented, if_pos more, Option.toList_some, List.length_append, List.length_singleton, length]
        rw [if_pos more]
        exact ⟨count, step, more, regs⟩
      · have step : (past ++ (decremented cfg s (.initDropRefs i)).toList).length = i := by
          simp only [decremented, if_neg more, Option.toList_none, List.append_nil, length]
        rw [if_neg more]
        exact ⟨count, by omega⟩
    case initDrain =>
      obtain ⟨count, uncounted, none, regs⟩ := stage
      have empty : cfg.getCount s.SendQueueCount = 0 := by rw [uncounted, getCount_zero]
      simp only [Session.next, if_pos empty, Option.some.injEq, Prod.mk.injEq] at taken
      obtain ⟨rfl, rfl⟩ := taken
      simp only [decremented, if_pos empty, Option.toList_none, List.append_nil, none]
      exact ⟨count, rfl, Nat.zero_le _, regs⟩
    case initRegisteredCount =>
      obtain ⟨count, length⟩ := stage
      cases taken
      simp only [decremented, Option.toList_none, List.append_nil]
      exact ⟨count, length⟩
    case acceptIncrement =>
      obtain ⟨count, rest⟩ := stage
      cases taken
      show Stage m _ (past ++ []) _
      rw [List.append_nil]
      exact ⟨congrArg inc32 count, rest⟩
    case initClearFlag =>
      obtain ⟨count, rest⟩ := stage
      cases taken
      show Stage m _ (past ++ []) _
      rw [List.append_nil]
      exact ⟨congrArg (· &&& 0x7FFFFFFF) count, rest⟩
    case acceptCount => cases taken; trivial
    case onAccept => cases taken; trivial
    all_goals
      simp only [Session.next] at taken
      repeat' split at taken
    all_goals first
      | cases taken; done
      | cases taken
        show Stage m _ (past ++ []) _
        rw [List.append_nil]
        exact stage
  · apply Stage.after
    have begun : pc.initialises = false := by simpa using init
    have later := (next_initialising taken).1
    cases after : pc'.initialises with
    | false => rfl
    | true =>
      rw [initialising, initialising, begun, after] at later
      exact absurd later (by decide)

/-- Along the first round the accept thread is alone, and the account holds. -/
theorem stage_of_run (run : Run (firstUse cfg m) AcceptOnly tr s) :
    s.threads = [] ∧ s = start (newSession m) ∧ dropped cfg tr = [] ∨
      ∃ count sock address pc, s.threads = [⟨.accept count sock address, pc⟩] ∧ Stage m s (dropped cfg tr) pc := by
  refine run.invariant (I := fun tr s => s.threads = [] ∧ s = start (newSession m) ∧ dropped cfg tr = [] ∨
      ∃ count sock address pc, s.threads = [⟨.accept count sock address, pc⟩] ∧ Stage m s (dropped cfg tr) pc) ?_ ?_
  · intro s is
    exact .inl ⟨by rw [is]; rfl, is, rfl⟩
  · intro tr s l s' _ held allowed taken
    have taken : Session.step cfg s l = some s' := taken
    have more : dropped cfg (tr ++ [(s, l)]) = dropped cfg tr ++ (drops cfg s l).toList := by
      unfold dropped
      rw [List.filterMap_append]
      cases here : drops cfg s l <;> simp [here]
    cases l with
    | accept count sock address =>
      obtain ⟨-, rfl⟩ := step_accept taken
      have none : s.threads = [] := allowed
      rcases held with ⟨-, rfl, empty⟩ | ⟨_, _, _, _, one, -⟩
      · refine .inr ⟨count, sock, address, .acceptIncrement, rfl, ?_⟩
        rw [more, empty]
        exact ⟨rfl, rfl, rfl, rfl⟩
      · rw [none] at one
        cases one
    | thread i ans =>
      obtain ⟨t, u, pc', at_i, moved, rfl⟩ := step_thread taken
      rcases held with ⟨none, -, -⟩ | ⟨count, sock, address, pc, one, stage⟩
      · rw [none] at at_i
        cases at_i
      · have first : i = 0 ∧ t = ⟨.accept count sock address, pc⟩ := by
          rw [one] at at_i
          cases i with
          | zero => exact ⟨rfl, (Option.some.inj at_i).symm⟩
          | succ i => cases at_i
        obtain ⟨rfl, rfl⟩ := first
        have drop : drops cfg s (.thread 0 ans) = decremented cfg s pc := by simp only [drops, one, List.getElem?_cons_zero, Option.bind_some]
        refine .inr ⟨count, sock, address, pc', by simp only [one, List.set_cons_zero], ?_⟩
        rw [more, drop]
        have next := stage.next moved
        cases pc' <;> exact next
    | call | recvCompletes | recvFails | sendCompletes | sendFails | workRecv | workSend | workRelease => exact allowed.elim

/-! ### The first round can be taken -/

theorem drops_finish (s : Slot) (left : Nat) {i : Nat} (remaining : i + left = s.RegisteredPacketCount) :
    solo cfg role (List.replicate (left + 2) .go) (s, .initDropRefs i) = some ({ s with RegisteredPacketCount := 0 }, .acceptCount) := by
  induction left generalizing i with
  | zero =>
    have past : ¬ i < s.RegisteredPacketCount := by omega
    simp only [List.replicate, solo, next, if_neg past, Option.bind_some]
  | succ left ih =>
    have more : i < s.RegisteredPacketCount := by omega
    have first : next cfg s role .go (.initDropRefs i) = some (s, .initDropRefs (i + 1)) := by
      simp only [next, if_pos more]
    rw [List.replicate_succ, solo, first, Option.bind_some]
    exact ih (by omega)

/-- `IncrementIoCount` and `Init` up to the loop over `RegisteredPackets`. -/
def afterInit (cfg : Config) (count sock address : Nat) (s : Slot) : Slot :=
  { s with
    IoCount := inc32 s.IoCount &&& 0x7FFFFFFF
    inits := s.inits + 1
    ID := newSessionID cfg count
    Socket := sock
    Address := address
    bSendFlag := 0
    SessionListKey := cfg.key
    bDisconnected := false
    bDisconnectRegistered := false
    RecvBuffer := s.RecvBuffer.clearBuffer }

theorem init_solo (count sock address : Nat) (s : Slot) (empty : s.SendQueueCount = 0) :
    solo cfg (.accept count sock address) (List.replicate 11 .go ++ List.replicate (s.RegisteredPacketCount + 2) .go) (s, .acceptIncrement) =
      some ({ afterInit cfg count sock address s with RegisteredPacketCount := 0 }, .acceptCount) := by
  have members : solo cfg (.accept count sock address) (List.replicate 11 .go) (s, .acceptIncrement) =
      some (afterInit cfg count sock address s, .initDropRefs 0) := by
    obtain ⟨key, limit, decode, countsLater, countWraps⟩ := cfg
    cases s
    simp only at empty
    subst empty
    cases countWraps <;> rfl
  rw [solo_append, members, Option.bind_some]
  exact drops_finish (afterInit cfg count sock address s) _ (Nat.zero_add _)

/-- The accept thread gets through `Init`, whatever the memory held. -/
theorem first_round (cfg : Config) (m : Leftover) : ∃ tr s, Run (firstUse cfg m) AcceptOnly tr s ∧ Initialised s := by
  let s₀ := start (newSession m)
  let s₁ : Slot := { s₀ with
    unusedKeys := 0, accepted := 0, acceptedSocket := 0, threads := [⟨.accept 0 0 0, .acceptIncrement⟩] }
  have accepts : (firstUse cfg m).step s₀ (.accept 0 0 0) = some s₁ := rfl
  have run : Run (firstUse cfg m) AcceptOnly [(s₀, .accept 0 0 0)] s₁ := (Run.init rfl).step rfl accepts
  have begun : s₁.threads[0]? = some ⟨.accept 0 0 0, .acceptIncrement⟩ := rfl
  have same : (firstUse cfg m).step = step cfg := rfl
  have replayed := exec_solo same begun (init_solo 0 0 0 s₁ rfl)
  obtain ⟨more, -, run⟩ := run.exec replayed (by
    intro s l member
    obtain ⟨ans, -, rfl⟩ := List.mem_map.mp member
    trivial)
  exact ⟨_, _, run, 0, 0, 0, rfl⟩

/-! ### When the first session is what `Init` should make it -/

/-- In every first round, once `Init` has returned, one reference is counted, no packet was dropped,
and dropping that reference releases the session. -/
def FirstUseSound (cfg : Config) (m : Leftover) : Prop :=
  ∀ tr s, Run (firstUse cfg m) AcceptOnly tr s → Initialised s →
    s.IoCount = 1 ∧ dropped cfg tr = [] ∧
      ∃ count sock address u, next cfg s (.accept count sock address) .go (.decCas false) = some (u, .releaseTest false)

theorem stage_initialised (run : Run (firstUse cfg m) AcceptOnly tr s) (done : Initialised s) :
    s.IoCount = firstCount m ∧ (dropped cfg tr).length = m.RegisteredPacketCount.toNat := by
  obtain ⟨_, _, _, at_end⟩ := done
  rcases stage_of_run run with ⟨none, -, -⟩ | ⟨count, sock, address, pc, one, stage⟩
  · rw [none] at at_end
    cases at_end
  · rw [one] at at_end
    cases at_end
    exact stage

/-- The first session of a slot is sound exactly when the memory happened to hold an `IoCount` of 0,
but for the release flag, and a `RegisteredPacketCount` of 0. -/
theorem firstUse_iff (cfg : Config) (m : Leftover) :
    FirstUseSound cfg m ↔ m.IoCount.toNat % 2 ^ 31 = 0 ∧ m.RegisteredPacketCount = 0 := by
  constructor
  · intro sound
    obtain ⟨tr, s, run, done⟩ := first_round cfg m
    obtain ⟨one, none, -⟩ := sound tr s run done
    obtain ⟨count, length⟩ := stage_initialised run done
    rw [none] at length
    refine ⟨(firstCount_one m).mp (count.symm.trans one), ?_⟩
    exact UInt32.toNat_inj.mp length.symm
  · rintro ⟨low, zero⟩ tr s run done
    obtain ⟨count, length⟩ := stage_initialised run done
    have one : s.IoCount = 1 := count.trans ((firstCount_one m).mpr low)
    rw [zero] at length
    refine ⟨one, List.eq_nil_of_length_eq_zero length, 0, 0, 0, { s with IoCount := releaseFlag }, ?_⟩
    simp only [next, if_pos one]

def leftover : Leftover where
  ID := 0
  Socket := 0
  Address := 0
  IoCount := 1
  bSendFlag := 0
  SessionListKey := 0
  bDisconnected := true
  bDisconnectRegistered := false
  RegisteredPacketCount := 0
  RegisteredPackets _ := ⟨0, 0⟩
  mBuffer _ := ⟨0, 0⟩

/-- A count of 1 that was left becomes 2, and the session is never released. -/
theorem leftover_counted : ¬ FirstUseSound plain leftover := by
  intro sound
  obtain ⟨tr, s, run, done⟩ := first_round plain leftover
  have one := (sound tr s run done).1
  have count := (stage_initialised run done).1
  rw [one, firstCount_eq] at count
  exact absurd count (by decide)

end WanNet.Session
