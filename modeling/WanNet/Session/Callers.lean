import WanNet.Session.Identity

/-!
A slot of a server whose application never calls `Disconnect` or `SendAndDisconnect`: while a worker of
the session runs, a `SendPacket` with its ID passes every test and is enqueued.
-/

namespace WanNet.Session
open Transition Threads ReleaseCount

variable {cfg : Config} {s s' u : Slot} {role : Role} {ans : Answer} {pc pc' : Pc} {t w : Thread} {i n : Nat} {l : Label}

/-- The accept thread before `Init` has cleared `bDisconnectRegistered`. -/
def unreset : Pc → Nat
  | .acceptIncrement | .initClearFlag | .initID | .initSocket | .initAddress | .initSendFlag | .initKey
  | .initDisconnected | .initRegistered => 1
  | _ => 0

theorem unreset_le (pc : Pc) : unreset pc ≤ initialising pc := by
  cases pc <;> simp [unreset, initialising, Pc.initialises]

/-- The application only sends, and no session is registered for its end. -/
structure Receptive (s : Slot) : Prop where
  sends : ∀ t ∈ s.threads, ∀ call sessionID, t.role = .api call sessionID → ∃ packet, call = .sendPacket packet
  unregistered : weigh unreset s = 0 → (core s).live = 1 → s.bDisconnectRegistered = false

def OnlySends : Label → Prop
  | .call call _ => ∃ packet, call = .sendPacket packet
  | _ => True

theorem Receptive.init (fresh : s.Fresh) : Receptive s := by
  constructor
  case sends =>
    intro t member
    rw [fresh.idle.1] at member
    cases member
  case unregistered =>
    intro _ live
    have used : 0 < s.inits := (Core.live_eq_one.mp live).2
    have := fresh.unused.1
    omega

theorem next_unregistered (h : next cfg s role ans pc = some (s', pc')) (sends : ∀ call sessionID, role = .api call sessionID → ∃ packet, call = .sendPacket packet) :
    s'.bDisconnectRegistered = false ∨ s'.bDisconnectRegistered = s.bDisconnectRegistered ∧ unreset pc ≤ unreset pc' := by
  cases next_moves h with
  | initRegistered => exact .inl rfl
  | callRegister sessionID api =>
    obtain ⟨packet, is⟩ := sends _ _ api
    cases is
  | callRegisterAndSend packet sessionID api =>
    obtain ⟨packet, is⟩ := sends _ _ api
    cases is
  | callCancel | recvCancel | sendCancel => exact .inr ⟨rfl, Nat.zero_le _⟩
  | acceptIncrement | initClearFlag | initID | initSocket | initAddress | initSendFlag | initKey | initDisconnected =>
    exact .inr ⟨rfl, Nat.le_refl _⟩
  | _ => exact .inr ⟨rfl, Nat.zero_le _⟩

theorem Receptive.step_move (receptive : Receptive s) (counts : Counts cfg s) (few : Few cfg s (.thread i ans))
    (h : step cfg s (.thread i ans) = some s') : Receptive s' := by
  have few := few s' h
  obtain ⟨t, u, pc', at_i, taken, rfl⟩ := step_thread h
  have member := List.mem_of_getElem? at_i
  have moved := counts.move member taken
  rw [← refs_core, stages_moved] at few
  constructor
  case sends =>
    intro x inside call sessionID role
    rcases mem_moved inside with old | rfl
    · exact receptive.sends x old call sessionID role
    · exact receptive.sends t member call sessionID role
  case unregistered =>
    intro reset live
    show u.bDisconnectRegistered = false
    rcases next_unregistered taken (receptive.sends t member) with off | ⟨same, kept⟩
    · exact off
    · have changed := weigh_moved unreset u pc' at_i
      have own := le_weigh (w := unreset) member
      rw [same]
      refine receptive.unregistered (by omega) ?_
      rcases (counts.inv.move_live (stages_at at_i) moved few).2 with still | ⟨revived, -⟩ | ⟨-, -, -, dead⟩
      · exact still.symm.trans live
      · have here : unreset t.pc = 1 := by
          cases pc : t.pc <;> rw [pc] at revived <;> cases revived
          rfl
        omega
      · exact absurd (live.symm.trans dead) (by decide)

/-- A thread that joins makes a call only where a call comes in. -/
theorem step_joins (h : step cfg s l = some s') (outside : ∀ i ans, l ≠ .thread i ans) (quiet : ∀ call sessionID, l ≠ .call call sessionID) :
    s'.threads = s.threads ∨ ∃ t, s'.threads = s.threads ++ [t] ∧ ∀ call sessionID, t.role ≠ .api call sessionID := by
  by_cases accepts : ∃ count sock address, l = .accept count sock address
  · obtain ⟨count, sock, address, rfl⟩ := accepts
    obtain ⟨-, rfl⟩ := step_accept h
    exact .inr ⟨_, rfl, by simp⟩
  · rcases (step_unaccepted h outside fun count sock address is => accepts ⟨count, sock, address, is⟩).2 with
      same | ⟨t, more, -, worker | ⟨call, sessionID, is⟩⟩
    · exact .inl same
    · exact .inr ⟨t, more, fun call sessionID api => by rw [worker] at api; cases api⟩
    · exact absurd is (quiet call sessionID)

theorem Receptive.join {new : List Thread} (receptive : Receptive s) (untouched : s.Untouched s') (threads : s'.threads = s.threads ++ new)
    (roles : ∀ t ∈ new, ∀ call sessionID, t.role = .api call sessionID → ∃ packet, call = .sendPacket packet) : Receptive s' := by
  constructor
  case sends =>
    intro t member call sessionID role
    rw [threads] at member
    rcases List.mem_append.mp member with old | joined
    · exact receptive.sends t old call sessionID role
    · exact roles t joined call sessionID role
  case unregistered =>
    intro reset lives
    rw [weigh_join threads] at reset
    rw [untouched.registered]
    refine receptive.unregistered (by omega) ?_
    rw [Core.live_eq_one] at lives ⊢
    have count : s'.IoCount = s.IoCount := untouched.count
    have inits : s'.inits = s.inits := untouched.inits
    have lives : s'.IoCount < flag ∧ 0 < s'.inits := lives
    rw [count, inits] at lives
    exact lives

theorem Receptive.step_outside (receptive : Receptive s) (only : OnlySends l) (h : step cfg s l = some s')
    (outside : ∀ i ans, l ≠ .thread i ans) : Receptive s' := by
  obtain ⟨untouched, -⟩ := Session.step_outside h outside
  by_cases calls : ∃ call sessionID, l = .call call sessionID
  · obtain ⟨call, sessionID, rfl⟩ := calls
    obtain rfl := Option.some.inj h
    obtain ⟨packet, rfl⟩ := only
    refine receptive.join untouched rfl fun t member call sessionID role => ?_
    obtain rfl := List.mem_singleton.mp member
    cases role
    exact ⟨packet, rfl⟩
  · rcases step_joins h outside fun call sessionID is => calls ⟨call, sessionID, is⟩ with still | ⟨t, more, none⟩
    · have threads : s'.threads = s.threads ++ [] := by rw [still, List.append_nil]
      exact receptive.join untouched threads (by simp)
    · refine receptive.join untouched more fun x member call sessionID role => ?_
      obtain rfl := List.mem_singleton.mp member
      exact absurd role (none call sessionID)

theorem Receptive.step (receptive : Receptive s) (counts : Counts cfg s) (few : Few cfg s l) (only : OnlySends l)
    (h : step cfg s l = some s') : Receptive s' := by
  by_cases threaded : ∃ i ans, l = .thread i ans
  · obtain ⟨i, ans, rfl⟩ := threaded
    exact receptive.step_move counts few h
  · exact receptive.step_outside only h fun i ans is => threaded ⟨i, ans, is⟩

def queues : Pc → Bool
  | .callIncrement | .callTestDisconnected | .callTestRegistered | .callTestID | .callRegister | .callAddRef | .callEnqueue => true
  | _ => false

/-- While someone works for the session, a `SendPacket` with its ID gets through. -/
theorem Receptive.proceeds (receptive : Receptive s) (counts : Counts cfg s) (exclusive : Exclusive s)
    (works : w ∈ s.threads) (acts : 0 < acting w.pc) (at_i : s.threads[i]? = some t) (role : t.role = .api (.sendPacket n) s.ID)
    (few : references (s.moved u i t pc') < 2 ^ 31 - 1) (taken : next cfg s t.role ans t.pc = some (u, pc'))
    (before : queues t.pc = true) (ahead : t.pc ≠ .callEnqueue) : queues pc' = true := by
  have settles := Nat.lt_of_lt_of_le acts (acting_le_settled w.pc)
  have unclosed := counts.inv.unclosed_of_settled (mem_stages works) settles
  have live := counts.inv.live_of_within (mem_stages works) (Nat.lt_of_lt_of_le settles (settled_le_within _))
  have unregistered : s.bDisconnectRegistered = false := by
    refine receptive.unregistered ?_ live
    have own := le_weigh (w := acting) works
    have apart := exclusive.2
    have resets := weigh_le (s := s) unreset_le
    omega
  obtain ⟨r, pc⟩ := t
  obtain rfl : r = .api (.sendPacket n) s.ID := role
  have moved := counts.move (List.mem_of_getElem? at_i) taken
  rw [← refs_core, stages_moved] at few
  cases next_moves taken with
  | callIncrement | callTestDisconnected | callTestRegistered | callSend | callAddRef => rfl
  | callReleased released =>
    exfalso
    have flagged := isNegative_iff.mp released
    have unflagged : s.IoCount < flag := (Core.live_eq_one.mp live).1
    obtain ⟨-, -, ⟨same, -⟩ | ⟨clear, -⟩ | ⟨⟨m, leaves, -⟩, -⟩⟩ := counts.inv.move_word (stages_at at_i) moved few
    · have := same.mpr unflagged
      exact Nat.not_lt.mpr flagged this
    · cases clear
    · cases leaves
  | callDisconnected disconnected => cases unclosed.symm.trans disconnected
  | callRegistered registered => cases unregistered.symm.trans registered
  | callOther call sessionID api other =>
    cases api
    exact absurd rfl other
  | callDisconnect api | callSendAndDisconnect packet api | callGetAddress api => cases api
  | callRegister sessionID api => cases api
  | callRegisterAndSend packet sessionID api => cases api
  | callEnqueueShows | callEnqueue => exact absurd rfl ahead
  | _ => cases before

end WanNet.Session
