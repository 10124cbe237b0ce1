import WanNet.Session.IoCount

/-!
Whose session a call works on: the accept thread initialises a slot alone, and a call whose guard
let it pass holds the session with its ID until it gives back its reference.
-/

namespace WanNet.Session
open Transition Threads ReleaseCount

variable {cfg : Config} {s s' u : Slot} {role : Role} {ans : Answer} {pc pc' : Pc} {t : Thread} {i : Nat}

/-! ### Who may touch the slot -/

def initialising (pc : Pc) : Nat := pc.initialises.toNat

/-- A thread that works on the slot: it entered past the closed mark and is not initialising, nor
still looking at the disconnect flag and the ID. -/
def acting : Pc → Nat
  | .callTestRegistered | .callTestID => 0
  | pc => if pc.initialises then 0 else settled (stage pc)

/-- At most one thread initialises the slot, and then nobody works on it and nothing is pending. -/
def Exclusive (s : Slot) : Prop :=
  weigh initialising s ≤ 1 ∧ (weigh initialising s = 0 ∨ (weigh acting s = 0 ∧ (core s).ops = 0))

theorem acting_le_settled (pc : Pc) : acting pc ≤ settled (stage pc) := by
  unfold acting
  split
  · exact Nat.zero_le _
  · exact Nat.zero_le _
  · split <;> omega

theorem initialising_le (pc : Pc) : initialising pc ≤ reviving (stage pc) + within (stage pc) := by
  cases pc <;> simp [initialising, Pc.initialises, stage]

theorem initialising_eq_one : initialising pc = 1 ↔ pc.initialises = true := by
  unfold initialising
  cases pc.initialises <;> simp

theorem initialises_false (nobody : weigh initialising s = 0) (member : t ∈ s.threads) : t.pc.initialises = false := by
  have own := le_weigh (w := initialising) member
  cases is : t.pc.initialises with
  | false => rfl
  | true =>
    have := initialising_eq_one.mpr is
    omega

theorem next_initialising (h : next cfg s role ans pc = some (s', pc')) :
    initialising pc' ≤ initialising pc ∧ (0 < initialising pc → acting pc' = 0 ∨ initialising pc' = 0) := by
  cases next_moves h with
  | decDecrement again | releasePush again => cases again <;> simp [initialising, Pc.initialises, decReturn]
  | _ => simp [initialising, Pc.initialises, acting]

theorem next_acting (h : next cfg s role ans pc = some (s', pc')) (idle : acting pc = 0) :
    (core s').ops = (core s).ops ∧ (acting pc' = 0 ∨ pc.initialises = true ∨
      pc = .callTestID ∧ ∃ call, role = .api call s.ID) := by
  cases next_moves h with
  | callSend _ api | callDisconnect api | callSendAndDisconnect _ api | callGetAddress api => exact ⟨rfl, .inr (.inr ⟨rfl, _, api⟩)⟩
  | callIncrement | callReleased | callTestDisconnected | callDisconnected | callTestRegistered | callRegistered | callOther
  | decCas | releaseCrash | releaseTest | releaseClose | releaseDisconnectedCount | releaseSessionCount | releasePost | onRelease =>
    exact ⟨rfl, .inl rfl⟩
  | decCasFails | decToZero | decIncrement => exact ⟨rfl, .inl idle⟩
  | decDecrement again =>
    cases again with
    | true => cases idle
    | false => exact ⟨rfl, .inl rfl⟩
  | releasePush again => cases again <;> exact ⟨rfl, .inl rfl⟩
  | acceptIncrement | initClearFlag | initID | initSocket | initAddress | initSendFlag | initKey | initDisconnected | initRegistered
  | initRecvBuffer | initDrained | initDrainWaits | initDrain | initDropRefs | initDropped | initRegisteredCount | acceptCount | onAccept =>
    exact ⟨rfl, .inr (.inl rfl)⟩
  | _ => cases idle

theorem Exclusive.move (exclusive : Exclusive s) (at_i : s.threads[i]? = some t)
    (taken : next cfg s t.role ans t.pc = some (u, pc'))
    (allow : t.pc = .callTestID → ∀ call, t.role = .api call s.ID → weigh initialising s = 0) :
    Exclusive (s.moved u i t pc') := by
  have init_changed := weigh_moved initialising u pc' at_i
  have act_changed := weigh_moved acting u pc' at_i
  have init_own := le_weigh (w := initialising) (List.mem_of_getElem? at_i)
  have act_own := le_weigh (w := acting) (List.mem_of_getElem? at_i)
  obtain ⟨fewer, apart⟩ := next_initialising taken
  unfold Exclusive at *
  show _ ∧ (_ ∨ (_ ∧ (core u).ops = 0))
  by_cases idle : acting t.pc = 0
  · obtain ⟨ops, idle' | init | ⟨test, call, role⟩⟩ := next_acting taken idle
    · omega
    · have : initialising t.pc = 1 := by simp [initialising, init]
      omega
    · have := allow test call role
      omega
  · omega

/-! ### Which session a slot holds -/

def Thread.caller (t : Thread) : Option Nat :=
  match t.role with
  | .api _ sessionID => if t.pc = .finished then none else some sessionID
  | _ => none

@[simp] theorem caller_worker (pc : Pc) : Thread.caller ⟨.worker, pc⟩ = none := rfl

theorem role_of_caller (h : t.caller = some sessionID) : ∃ call, t.role = .api call sessionID := by
  unfold Thread.caller at h
  split at h
  next call is role =>
    split at h
    · cases h
    · cases h
      exact ⟨call, role⟩
  next => cases h

theorem caller_of_role (role : t.role = .api call sessionID) (running : t.pc ≠ .finished) :
    t.caller = some sessionID := by
  simp [Thread.caller, role, running]

/-- The ID came from the `OnAccept` with some value of `mSessionAcceptedCount`, fewer than 2^32
accepts before `count`. -/
def Knows (cfg : Config) (s : Slot) (count sessionID : Nat) : Prop :=
  ∃ n ∈ s.issued, sessionID = newSessionID cfg n ∧ count < n + 2 ^ 32

/-- Callers use the IDs they got from `OnAccept`, in time; the accept counter only grows. -/
def Called (cfg : Config) (s : Slot) : Label → Prop
  | .accept count _ _ => s.accepted < count ∧
      ∀ t ∈ s.threads, ∀ sessionID ∈ t.caller, Knows cfg s count sessionID
  | .call _ sessionID => Knows cfg s s.accepted sessionID
  | _ => True

instance : Decidable (Knows cfg s count sessionID) := inferInstanceAs (Decidable (∃ n ∈ s.issued, _))

instance : Decidable (Called cfg s l) :=
  match l with
  | .accept _ _ _ => inferInstanceAs (Decidable (_ ∧ ∀ t ∈ s.threads, _))
  | .call _ sessionID => inferInstanceAs (Decidable (Knows cfg s s.accepted sessionID))
  | .recvCompletes _ _ | .recvFails _ | .sendCompletes _ | .sendFails _ | .workRecv _ | .workSend _ | .workRelease _ | .thread _ _ =>
    .isTrue trivial

def naming : Pc → Nat
  | .initID => 1
  | _ => 0

structure Identified (cfg : Config) (s : Slot) : Prop where
  exclusive : Exclusive s
  rounds : ∀ t ∈ s.threads, t.pc.initialises = true → ∃ address, t.role = .accept s.accepted s.acceptedSocket address
  named : weigh naming s = 0 → (core s).live = 1 → s.ID = newSessionID cfg s.accepted
  past : ∀ n ∈ s.issued, n ≤ s.accepted ∧ 0 < s.inits
  unissued : 0 < weigh initialising s → ∀ n ∈ s.issued, n < s.accepted
  callers : ∀ t ∈ s.threads, ∀ sessionID ∈ t.caller, Knows cfg s s.accepted sessionID
  admitted : ∀ t ∈ s.threads, ∀ sessionID ∈ t.caller, 0 < acting t.pc → s.ID = sessionID

theorem newSessionID_eq (cfg : Config) (n : Nat) : newSessionID cfg n = cfg.key * 2 ^ 32 + n % 2 ^ 32 := by
  have low : n &&& 0xFFFFFFFF = n % 2 ^ 32 := Nat.and_two_pow_sub_one_eq_mod n 32
  unfold newSessionID
  rw [low, Nat.or_comm, ← Nat.shiftLeft_add_eq_or_of_lt (Nat.mod_lt _ (by decide)), Nat.shiftLeft_eq]

theorem newSessionID_inj (same : newSessionID cfg m = newSessionID cfg n) (le : m ≤ n) (near : n < m + 2 ^ 32) :
    m = n := by
  rw [newSessionID_eq, newSessionID_eq] at same
  omega

theorem naming_other (h : pc ≠ .initID) : naming pc = 0 := by
  cases pc <;> first | rfl | exact absurd rfl h

theorem naming_le_opening (pc : Pc) : naming pc ≤ opening (stage pc) := by
  cases pc <;> simp [naming, stage]

/-- A caller that finds its ID in the slot does so while nobody initialises it: an initialiser that
has cleared `bDisconnected` has written an ID that no caller knows yet. -/
theorem Identified.allow (id : Identified cfg s) (counts : Counts cfg s) (member : t ∈ s.threads)
    (test : t.pc = .callTestID) (role : t.role = .api call s.ID) : weigh initialising s = 0 := by
  by_contra someone
  have in_stage := mem_stages member
  rw [test] at in_stage
  have live := counts.inv.live_of_within in_stage Nat.one_pos
  have unclosed := counts.inv.unclosed_of_settled in_stage Nat.one_pos
  have none := counts.inv.no_opening unclosed
  have names := weigh_le (s := s) naming_le_opening
  rw [weigh_stage] at names
  have named := id.named (by omega) live
  obtain ⟨n, issued, is_n, near⟩ := id.callers t member s.ID (caller_of_role role (by rw [test]; exact nofun))
  have before := id.unissued (by omega) n issued
  have := newSessionID_inj (is_n.symm.trans named) (Nat.le_of_lt before) near
  omega

theorem Identified.init (fresh : s.Fresh) : Identified cfg s := by
  obtain ⟨threads, recvIo, sendIo, -⟩ := fresh.idle
  obtain ⟨inits, accepted, issued⟩ := fresh.unused
  refine ⟨?_, ?_, ?_, ?_, ?_, ?_, ?_⟩
  · simp [Exclusive, weigh, threads]
  · simp [threads]
  · intro _ live
    have := (Core.live_eq_one.mp live).2
    simp only [core] at this
    omega
  · simp [issued]
  · simp [issued]
  · simp [threads]
  · simp [threads]

/-- New threads neither initialise nor, where the slot may be initialised, act on it. -/
theorem Exclusive.join (exclusive : Exclusive s) (threads : s'.threads = s.threads ++ new)
    (ops : (core s').ops ≤ (core s).ops) (none : ∀ t ∈ new, t.pc.initialises = false)
    (idle : (core s).ops = 0 → ∀ t ∈ new, acting t.pc = 0) : Exclusive s' := by
  have no_init : total (fun t : Thread => initialising t.pc) new = 0 :=
    total_eq_zero.mpr fun t ht => by simp [initialising, none t ht]
  have no_act (h : (core s).ops = 0) : total (fun t : Thread => acting t.pc) new = 0 :=
    total_eq_zero.mpr (idle h)
  unfold Exclusive at *
  rw [weigh_join threads, weigh_join threads]
  omega

theorem Identified.join (id : Identified cfg s) (same : s.Untouched s') (threads : s'.threads = s.threads ++ new)
    (accepted : s'.accepted = s.accepted ∧ s'.acceptedSocket = s.acceptedSocket)
    (ops : (core s').ops ≤ (core s).ops) (none : ∀ t ∈ new, t.pc.initialises = false)
    (idle : (core s).ops = 0 → ∀ t ∈ new, acting t.pc = 0)
    (known : ∀ t ∈ new, ∀ sessionID ∈ t.caller, acting t.pc = 0 ∧ Knows cfg s s.accepted sessionID) :
    Identified cfg s' := by
  have fewer : weigh initialising s' = weigh initialising s := by
    have no_init : total (fun t : Thread => initialising t.pc) new = 0 :=
      total_eq_zero.mpr fun t ht => by simp [initialising, none t ht]
    rw [weigh_join threads]
    omega
  have split {t : Thread} (h : t ∈ s'.threads) : t ∈ s.threads ∨ t ∈ new := by
    rw [threads] at h
    exact List.mem_append.mp h
  refine ⟨id.exclusive.join threads ops none idle, ?_, ?_, ?_, ?_, ?_, ?_⟩
  · intro t ht init
    rw [accepted.1, accepted.2]
    rcases split ht with old | joined
    · exact id.rounds t old init
    · rw [none t joined] at init
      cases init
  · intro unnamed live
    rw [weigh_join threads] at unnamed
    rw [same.id, accepted.1]
    rw [live_eq same.count same.inits] at live
    exact id.named (by omega) live
  · rw [same.issued, accepted.1, same.inits]
    exact id.past
  · rw [fewer, same.issued, accepted.1]
    exact id.unissued
  · intro t ht sessionID caller
    unfold Knows
    rw [same.issued, accepted.1]
    rcases split ht with old | joined
    · exact id.callers t old sessionID caller
    · exact (known t joined sessionID caller).2
  · intro t ht sessionID caller acts
    rw [same.id]
    rcases split ht with old | joined
    · exact id.admitted t old sessionID caller acts
    · have := (known t joined sessionID caller).1
      omega

/-- With the key free, nobody initialises or works on the slot. -/
theorem Counts.vacant (counts : Counts cfg s) (key : 0 < s.unusedKeys) :
    (core s).live = 0 ∧ weigh initialising s = 0 ∧ weigh acting s = 0 ∧ (core s).ops = 0 := by
  have owner : s.unusedKeys + _ + _ + _ = 1 := counts.inv.one_owner
  have pinned := counts.inv.pinned
  have dead : (core s).live = 0 := by omega
  have inits := weigh_le (s := s) initialising_le
  have acts := weigh_le (s := s) fun pc => Nat.le_trans (acting_le_settled pc) (settled_le_within (stage pc))
  rw [weigh_add, weigh_stage, weigh_stage] at inits
  rw [weigh_stage] at acts
  omega

theorem Identified.accept (id : Identified cfg s) (counts : Counts cfg s)
    (called : Called cfg s (.accept count sock address))
    (h : step cfg s (.accept count sock address) = some s') : Identified cfg s' := by
  have threads := congrArg Slot.threads (step_accept h).2
  obtain ⟨key, rfl⟩ := step_accept h
  obtain ⟨newer, in_time⟩ := called
  obtain ⟨dead, no_init, no_act, no_ops⟩ := counts.vacant key
  refine ⟨?_, ?_, ?_, ?_, ?_, ?_, ?_⟩
  · unfold Exclusive
    rw [weigh_join threads, weigh_join threads, no_init, no_act]
    exact ⟨Nat.le_refl _, .inr ⟨rfl, no_ops⟩⟩
  · intro t ht init
    rcases List.mem_append.mp ht with old | new
    · have own := le_weigh (w := initialising) old
      have one : initialising t.pc = 1 := by simp [initialising, init]
      omega
    · obtain rfl := List.mem_singleton.mp new
      exact ⟨address, rfl⟩
  · intro _ live
    have live : (core s).live = 1 := live
    omega
  · intro n issued
    have := id.past n issued
    exact ⟨by simp only; omega, this.2⟩
  · intro _ n issued
    have := id.past n issued
    simp only
    omega
  · intro t ht sessionID caller
    rcases List.mem_append.mp ht with old | new
    · exact in_time t old sessionID caller
    · obtain rfl := List.mem_singleton.mp new
      cases caller
  · intro t ht sessionID caller acts
    rcases List.mem_append.mp ht with old | new
    · have := le_weigh (w := acting) old
      omega
    · obtain rfl := List.mem_singleton.mp new
      cases caller

theorem Identified.step_outside (id : Identified cfg s) (counts : Counts cfg s) (called : Called cfg s l)
    (h : step cfg s l = some s') (outside : ∀ i ans, l ≠ .thread i ans) : Identified cfg s' := by
  have same := (Session.step_outside h outside).1
  cases l with
  | accept count sock address => exact id.accept counts called h
  | call call sessionID =>
    obtain rfl := Option.some.inj h
    refine id.join same rfl ⟨rfl, rfl⟩ (Nat.le_refl _) ?_ ?_ ?_
    · simp [Pc.initialises]
    · simp [acting, stage, Pc.initialises]
    · intro t ht sessionID caller
      obtain rfl := List.mem_singleton.mp ht
      cases caller
      exact ⟨rfl, called⟩
  | recvCompletes j data =>
    obtain ⟨io, -, -, rfl⟩ := step_recvCompletes h
    exact id.join same (List.append_nil _).symm ⟨rfl, rfl⟩ (by simp [core, fill]) (by simp) (by simp) (by simp)
  | recvFails j =>
    obtain ⟨io, -, rfl⟩ := step_recvFails h
    exact id.join same (List.append_nil _).symm ⟨rfl, rfl⟩ (by simp [core]) (by simp) (by simp) (by simp)
  | sendCompletes j =>
    obtain ⟨io, -, rfl⟩ := step_sendCompletes h
    exact id.join same (List.append_nil _).symm ⟨rfl, rfl⟩ (by simp [core]) (by simp) (by simp) (by simp)
  | sendFails j =>
    obtain ⟨io, -, rfl⟩ := step_sendFails h
    exact id.join same (List.append_nil _).symm ⟨rfl, rfl⟩ (by simp [core]) (by simp) (by simp) (by simp)
  | workRecv j =>
    obtain ⟨io, success, n, at_j, -, rfl⟩ := step_workRecv h
    have shorter := length_eraseIdx_add_one at_j
    refine id.join same rfl ⟨rfl, rfl⟩ (by simp only [core]; omega) ?_ ?_ (by simp)
    · cases success <;> simp [Pc.initialises]
    · simp only [core]
      omega
  | workSend j =>
    obtain ⟨io, success, n, at_j, -, rfl⟩ := step_workSend h
    have shorter := length_eraseIdx_add_one at_j
    refine id.join same rfl ⟨rfl, rfl⟩ (by simp only [core]; omega) ?_ ?_ (by simp)
    · cases success <;> simp [Pc.initialises]
    · simp only [core]
      omega
  | workRelease j =>
    obtain ⟨sessionID, -, rfl⟩ := step_workRelease h
    refine id.join same rfl ⟨rfl, rfl⟩ (Nat.le_refl _) ?_ ?_ (by simp)
    · simp [Pc.initialises]
    · simp [acting, stage, Pc.initialises]
  | thread i ans => exact absurd rfl (outside i ans)

theorem next_init (h : next cfg s role ans pc = some (s', pc')) (init : pc.initialises = true) :
    (s'.ID = s.ID ∧ pc ≠ .initID ∨
      ∃ count sock address, role = .accept count sock address ∧ s'.ID = newSessionID cfg count) ∧
      (s'.issued = s.issued ∨
        (pc' = .onAcceptReturn ∧ stage pc = .settling ∧ s'.issued = s.accepted :: s.issued)) := by
  cases next_moves h with
  | initID count sock address accept => exact ⟨.inr ⟨count, sock, address, accept, rfl⟩, .inl rfl⟩
  | onAccept => exact ⟨.inl ⟨rfl, by simp⟩, .inr ⟨rfl, rfl, rfl⟩⟩
  | acceptIncrement | initClearFlag | initSocket | initAddress | initSendFlag | initKey | initDisconnected | initRegistered
  | initRecvBuffer | initDrained | initDrainWaits | initDrain | initDropRefs | initDropped | initRegisteredCount | acceptCount =>
    exact ⟨.inl ⟨rfl, by simp⟩, .inl rfl⟩
  | _ => cases init

theorem next_inits (h : next cfg s role ans pc = some (s', pc')) : s.inits ≤ s'.inits := by
  cases next_moves h with
  | initClearFlag => exact Nat.le_succ _
  | _ => exact Nat.le_refl _

theorem next_naming (h : next cfg s role ans pc = some (s', pc')) (revived : stage pc = .reviving true) :
    naming pc' = 1 := by
  cases pc <;> simp [stage] at revived
  cases h
  rfl

/-- A live slot was live before, but for the step that begins its life. -/
theorem Counts.alive (counts : Counts cfg s) (at_i : s.threads[i]? = some t) (taken : next cfg s t.role ans t.pc = some (u, pc'))
    (few : refs (core u) ((stages s).set i (stage pc')) < 2 ^ 31 - 1) (live : (core u).live = 1) (named : naming pc' = 0) :
    (core s).live = 1 := by
  have moved := counts.move (List.mem_of_getElem? at_i) taken
  rcases (counts.inv.move_live (stages_at at_i) moved few).2 with same | ⟨revived, -⟩ | ⟨-, -, -, dead⟩
  · exact same.symm.trans live
  · have := next_naming taken revived
    omega
  · exact absurd (live.symm.trans dead) (by decide)

theorem Identified.step_move (id : Identified cfg s) (counts : Counts cfg s) (bounded : Bounded cfg s (.thread i ans))
    (h : step cfg s (.thread i ans) = some s') : Identified cfg s' := by
  have few := bounded.1 s' h
  obtain ⟨t, u, pc', at_i, taken, rfl⟩ := step_thread h
  have member := List.mem_of_getElem? at_i
  have stage_i := stages_at at_i
  have moved := counts.move member taken
  rw [← refs_core, stages_moved] at few
  obtain ⟨accepted, sock, -⟩ := next_accepted taken
  have running : t.pc ≠ .finished := fun done => by rw [done] at taken; cases taken
  have fewer := (next_initialising taken).1
  have init_changed := weigh_moved initialising u pc' at_i
  have init_own := le_weigh (w := initialising) member
  have init_iff : t.pc.initialises = true ↔ 0 < initialising t.pc := by
    unfold initialising
    cases t.pc.initialises <;> simp
  -- `OnAccept` alone issues an ID, and ends the initialisation
  have issues : u.issued = s.issued ∨ (initialising t.pc = 1 ∧ initialising pc' = 0 ∧ stage t.pc = .settling ∧
      u.issued = s.accepted :: s.issued) := by
    by_cases init : t.pc.initialises = true
    · rcases (next_init taken init).2 with same | ⟨rfl, settling, more⟩
      · exact .inl same
      · exact .inr ⟨by simp [initialising, init], rfl, settling, more⟩
    · exact .inl (next_keeps taken (by simpa using init)).issued
  have grows : ∀ n ∈ s.issued, n ∈ u.issued := by
    intro n issued
    rcases issues with same | ⟨-, -, -, more⟩
    · rwa [same]
    · rw [more]
      exact List.mem_cons_of_mem _ issued
  refine ⟨?_, ?_, ?_, ?_, ?_, ?_, ?_⟩
  · exact id.exclusive.move at_i taken fun test call role => id.allow counts member test role
  · intro x hx init
    show ∃ address, x.role = .accept u.accepted u.acceptedSocket address
    rw [accepted, sock]
    rcases mem_moved hx with old | rfl
    · exact id.rounds x old init
    · refine id.rounds t member (init_iff.mpr ?_)
      have : initialising pc' = 1 := by simp [initialising, init]
      omega
  · intro unnamed live
    show u.ID = newSessionID cfg u.accepted
    rw [accepted]
    have naming_changed := weigh_moved naming u pc' at_i
    have naming_own := le_weigh (w := naming) member
    have alive := counts.alive at_i taken few live (by omega)
    by_cases init : t.pc.initialises = true
    · rcases (next_init taken init).1 with ⟨same, unnaming⟩ | ⟨count, _, _, role, written⟩
      · rw [same]
        refine id.named ?_ alive
        have := naming_other unnaming
        omega
      · obtain ⟨address, is⟩ := id.rounds t member init
        cases role.symm.trans is
        exact written
    · rw [(next_keeps taken (by simpa using init)).id]
      refine id.named ?_ alive
      have : naming t.pc = 0 := naming_other (by rintro is; rw [is] at init; exact init rfl)
      omega
  · intro n issued
    show n ≤ u.accepted ∧ 0 < u.inits
    rw [accepted]
    have inits := next_inits taken
    rcases issues with same | ⟨-, -, settling, more⟩
    · have := id.past n (same ▸ issued)
      omega
    · rcases List.mem_cons.mp (more ▸ issued : n ∈ s.accepted :: s.issued) with rfl | old
      · have live := counts.inv.live_of_within (mem_stages member) (by rw [settling]; exact Nat.one_pos)
        have used : 0 < s.inits := (Core.live_eq_one.mp live).2
        omega
      · have := id.past n old
        omega
  · intro someone n issued
    show n < u.accepted
    rw [accepted]
    have one := id.exclusive.1
    rcases issues with same | ⟨was, done, -⟩
    · exact id.unissued (by omega) n (same ▸ issued)
    · omega
  · intro x hx sessionID caller
    obtain ⟨n, issued, is_n, near⟩ : Knows cfg s s.accepted sessionID := by
      rcases mem_moved hx with old | rfl
      · exact id.callers x old sessionID caller
      · obtain ⟨call, role⟩ := role_of_caller caller
        exact id.callers t member sessionID (caller_of_role role running)
    exact ⟨n, grows n issued, is_n, by rw [← accepted] at near; exact near⟩
  · intro x hx sessionID caller acts
    show u.ID = sessionID
    rcases mem_moved hx with old | rfl
    · have own := le_weigh (w := acting) old
      have apart := id.exclusive.2
      have other : ¬ t.pc.initialises = true := fun init => by
        have := init_iff.mp init
        omega
      rw [(next_keeps taken (by simpa using other)).id]
      exact id.admitted x old sessionID caller acts
    · obtain ⟨call, role⟩ := role_of_caller caller
      by_cases init : t.pc.initialises = true
      · obtain ⟨address, is⟩ := id.rounds t member init
        cases role.symm.trans is
      · rw [(next_keeps taken (by simpa using init)).id]
        by_cases idle : acting t.pc = 0
        · rcases (next_acting taken idle).2 with none | init' | ⟨-, _, is⟩
          · simp only at acts
            omega
          · exact absurd init' init
          · cases role.symm.trans is
            rfl
        · exact id.admitted t member sessionID (caller_of_role role running) (Nat.pos_of_ne_zero idle)

theorem Identified.used (id : Identified cfg s) (called : Called cfg s l) : Used s l := by
  cases l with
  | call call sessionID =>
    obtain ⟨n, issued, -⟩ := called
    exact .inl (id.past n issued).2
  | _ => trivial

theorem Run.identified (run : Run (slot cfg) (fun s l => Few cfg s l ∧ Called cfg s l) tr s) :
    Counts cfg s ∧ Identified cfg s := by
  refine run.invariant_state (I := fun s => Counts cfg s ∧ Identified cfg s)
    (fun s fresh => ⟨Counts.init fresh, Identified.init fresh⟩) ?_
  rintro s l s' ⟨counts, id⟩ ⟨few, called⟩ h
  have bounded : Bounded cfg s l := ⟨few, id.used called⟩
  refine ⟨counts.step bounded h, ?_⟩
  by_cases threaded : ∃ i ans, l = .thread i ans
  · obtain ⟨i, ans, rfl⟩ := threaded
    exact id.step_move counts bounded h
  · exact id.step_outside counts called h fun i ans is => threaded ⟨i, ans, is⟩

/-! ### The socket and the address of the session -/

/-- `mSessionAcceptedCount`, the socket and the address of the latest accept. -/
def newest (tr : List (Slot × Label)) : Option (Nat × Nat × Nat) :=
  (tr.filterMap fun x => match x.2 with
    | .accept count sock address => some (count, sock, address)
    | _ => none).getLast?

theorem newest_accept : newest (tr ++ [(s, .accept count sock address)]) = some (count, sock, address) := by simp [newest]

theorem newest_other (other : ∀ count sock address, l ≠ .accept count sock address) : newest (tr ++ [(s, l)]) = newest tr := by
  cases l with
  | accept count sock address => exact absurd rfl (other count sock address)
  | _ => simp [newest]

/-- The accept thread before `Init` has written the socket, and before it has written the address. -/
def unsocketed : Pc → Nat
  | .acceptIncrement | .initClearFlag | .initID | .initSocket => 1
  | _ => 0

def unaddressed : Pc → Nat
  | .acceptIncrement | .initClearFlag | .initID | .initSocket | .initAddress => 1
  | _ => 0

theorem unsocketed_le_unaddressed (pc : Pc) : unsocketed pc ≤ unaddressed pc := by cases pc <;> simp [unsocketed, unaddressed]

theorem unaddressed_of_not (other : pc.initialises = false) : unaddressed pc = 0 := by
  cases pc <;> first | rfl | cases other

theorem next_socketed (h : next cfg s role ans pc = some (s', pc')) (written : unsocketed pc' = 0) :
    s'.Socket = s.Socket ∧ unsocketed pc = 0 ∨
      pc.initialises = true ∧ ∃ count sock address, role = .accept count sock address ∧ s'.Socket = sock := by
  cases next_moves h with
  | initSocket count sock address accept => exact .inr ⟨rfl, count, sock, address, accept, rfl⟩
  | acceptIncrement | initClearFlag | initID => cases written
  | _ => exact .inl ⟨rfl, rfl⟩

theorem next_addressed (h : next cfg s role ans pc = some (s', pc')) (written : unaddressed pc' = 0) :
    s'.Address = s.Address ∧ unaddressed pc = 0 ∨
      pc.initialises = true ∧ ∃ count sock address, role = .accept count sock address ∧ s'.Address = address := by
  cases next_moves h with
  | initAddress count sock address accept => exact .inr ⟨rfl, count, sock, address, accept, rfl⟩
  | acceptIncrement | initClearFlag | initID | initSocket => cases written
  | _ => exact .inl ⟨rfl, rfl⟩

theorem initialiser_old (h : step cfg s l = some s') (outside : ∀ i ans, l ≠ .thread i ans)
    (other : ∀ count sock address, l ≠ .accept count sock address) (member : t ∈ s'.threads) (init : t.pc.initialises = true) :
    t ∈ s.threads := by
  rcases (step_unaccepted h outside other).2 with same | ⟨x, more, idle, -⟩
  · rwa [same] at member
  · rw [more] at member
    refine (List.mem_append.mp member).resolve_right fun new => ?_
    rw [List.mem_singleton.mp new, idle] at init
    cases init

/-- A live slot has the socket and the address of its accept as soon as `Init` has written them. -/
structure Located (sock address : Nat) (s : Slot) : Prop where
  rounds : ∀ t ∈ s.threads, t.pc.initialises = true → ∃ count, t.role = .accept count sock address
  socketed : (core s).live = 1 → weigh unsocketed s = 0 → s.Socket = sock
  addressed : (core s).live = 1 → weigh unaddressed s = 0 → s.Address = address

theorem Located.accept {count sock address : Nat} (counts : Counts cfg s) (h : step cfg s (.accept count sock address) = some s') :
    Located sock address s' := by
  obtain ⟨key, rfl⟩ := step_accept h
  obtain ⟨dead, no_init, -, -⟩ := counts.vacant key
  refine ⟨fun t member init => ?_, fun live => ?_, fun live => ?_⟩
  · rcases List.mem_append.mp member with old | new
    · have own := le_weigh (w := initialising) old
      have one : initialising t.pc = 1 := by simp [initialising, init]
      omega
    · obtain rfl := List.mem_singleton.mp new
      exact ⟨count, rfl⟩
  all_goals
    have live : (core s).live = 1 := live
    omega

theorem Located.outside (located : Located sock address s) (h : step cfg s l = some s') (outside : ∀ i ans, l ≠ .thread i ans)
    (other : ∀ count sock address, l ≠ .accept count sock address) : Located sock address s' := by
  obtain ⟨same, threads⟩ := Session.step_outside h outside
  have fewer (w : Pc → Nat) (none : weigh w s' = 0) : weigh w s = 0 := by
    rcases threads with still | ⟨t, more, -⟩
    · unfold weigh at none ⊢
      rwa [still] at none
    · rw [weigh_join more] at none
      omega
  refine ⟨fun t member init => located.rounds t (initialiser_old h outside other member init) init, ?_, ?_⟩
  · rw [live_eq same.count same.inits, same.socket]
    exact fun live none => located.socketed live (fewer _ none)
  · rw [live_eq same.count same.inits, same.address]
    exact fun live none => located.addressed live (fewer _ none)

theorem Located.move (located : Located sock address s) (counts : Counts cfg s) (few : Few cfg s (.thread i ans))
    (h : step cfg s (.thread i ans) = some s') : Located sock address s' := by
  have few := few s' h
  obtain ⟨t, u, pc', at_i, taken, rfl⟩ := step_thread h
  rw [← refs_core, stages_moved] at few
  have member := List.mem_of_getElem? at_i
  have reached : ⟨t.role, pc'⟩ ∈ (s.moved u i t pc').threads := List.mem_set (List.getElem?_eq_some_iff.mp at_i).1 _
  have named (w : Pc → Nat) (le : ∀ pc, naming pc ≤ w pc) (none : weigh w (s.moved u i t pc') = 0) : naming pc' = 0 := by
    have own := le_weigh (w := w) reached
    have := le pc'
    simp only at own
    omega
  refine ⟨fun x hx init => ?_, fun live none => ?_, fun live none => ?_⟩
  · rcases mem_moved hx with old | rfl
    · exact located.rounds x old init
    · refine located.rounds t member ?_
      have fewer := (next_initialising taken).1
      have one : initialising pc' = 1 := by simp [initialising, init]
      cases is : t.pc.initialises with
      | true => rfl
      | false => simp only [initialising, is, Bool.toNat_false] at fewer one; omega
  · have alive := counts.alive at_i taken few live (named unsocketed (by intro pc; cases pc <;> simp [naming, unsocketed]) none)
    have changed := weigh_moved unsocketed u pc' at_i
    have own := le_weigh (w := unsocketed) reached
    show u.Socket = sock
    rcases next_socketed taken (by simp only at own; omega) with ⟨same, past⟩ | ⟨init, _, _, _, role, written⟩
    · rw [same]
      exact located.socketed alive (by omega)
    · obtain ⟨_, is⟩ := located.rounds t member init
      cases role.symm.trans is
      exact written
  · have alive := counts.alive at_i taken few live (named unaddressed (by intro pc; cases pc <;> simp [naming, unaddressed]) none)
    have changed := weigh_moved unaddressed u pc' at_i
    have own := le_weigh (w := unaddressed) reached
    show u.Address = address
    rcases next_addressed taken (by simp only at own; omega) with ⟨same, past⟩ | ⟨init, _, _, _, role, written⟩
    · rw [same]
      exact located.addressed alive (by omega)
    · obtain ⟨_, is⟩ := located.rounds t member init
      cases role.symm.trans is
      exact written

/-- The slot has been given to the latest client accepted, or to none yet. -/
structure Given (tr : List (Slot × Label)) (s : Slot) : Prop where
  unbegun : newest tr = none → s.inits = 0 ∧ weigh initialising s = 0
  begun : ∀ count sock address, newest tr = some (count, sock, address) → s.accepted = count ∧ Located sock address s

theorem Given.init (fresh : s.Fresh) : Given [] s := by
  refine ⟨fun _ => ⟨fresh.unused.1, by simp [weigh, fresh.idle.1]⟩, fun _ _ _ is => ?_⟩
  cases is

theorem Given.accept (counts : Counts cfg s) (h : step cfg s (.accept count sock address) = some s') :
    Given (tr ++ [(s, .accept count sock address)]) s' := by
  refine ⟨fun none => ?_, fun _ _ _ is => ?_⟩
  · rw [newest_accept] at none
    cases none
  · rw [newest_accept] at is
    cases is
    exact ⟨by rw [(step_accept h).2], .accept counts h⟩

theorem Given.outside (given : Given tr s) (h : step cfg s l = some s') (outside : ∀ i ans, l ≠ .thread i ans)
    (other : ∀ count sock address, l ≠ .accept count sock address) : Given (tr ++ [(s, l)]) s' := by
  obtain ⟨same, -⟩ := Session.step_outside h outside
  refine ⟨fun none => ?_, fun count sock address is => ?_⟩
  · rw [newest_other other] at none
    obtain ⟨unused, nobody⟩ := given.unbegun none
    refine ⟨same.inits.trans unused, total_eq_zero.mpr fun t member => ?_⟩
    cases is : t.pc.initialises with
    | false => simp [initialising, is]
    | true => exact absurd is (by simp [initialises_false nobody (initialiser_old h outside other member is)])
  · rw [newest_other other] at is
    obtain ⟨newest, located⟩ := given.begun count sock address is
    exact ⟨(step_unaccepted h outside other).1.2.1.trans newest, located.outside h outside other⟩

theorem Given.move (given : Given tr s) (counts : Counts cfg s) (few : Few cfg s (.thread i ans))
    (h : step cfg s (.thread i ans) = some s') : Given (tr ++ [(s, .thread i ans)]) s' := by
  have same : newest (tr ++ [(s, .thread i ans)]) = newest tr := newest_other (by simp)
  refine ⟨fun none => ?_, fun count sock address is => ?_⟩
  · rw [same] at none
    obtain ⟨unused, nobody⟩ := given.unbegun none
    obtain ⟨t, u, pc', at_i, taken, rfl⟩ := step_thread h
    have own := le_weigh (w := initialising) (List.mem_of_getElem? at_i)
    have fewer := (next_initialising taken).1
    have changed := weigh_moved initialising u pc' at_i
    have idle := initialises_false nobody (List.mem_of_getElem? at_i)
    exact ⟨(next_keeps taken idle).inits.trans unused, by omega⟩
  · rw [same] at is
    obtain ⟨newest, located⟩ := given.begun count sock address is
    refine ⟨?_, located.move counts few h⟩
    obtain ⟨t, u, pc', -, taken, rfl⟩ := step_thread h
    exact (next_accepted taken).1.trans newest

theorem Run.given (run : Run (slot cfg) (fun s l => Few cfg s l ∧ Called cfg s l) tr s) : Given tr s := by
  refine run.invariant (I := Given) (fun s fresh => .init fresh) ?_
  rintro tr s l s' before given ⟨few, called⟩ h
  obtain ⟨counts, id⟩ := Run.identified before
  by_cases accepts : ∃ count sock address, l = .accept count sock address
  · obtain ⟨count, sock, address, rfl⟩ := accepts
    exact .accept counts h
  have other : ∀ count sock address, l ≠ .accept count sock address := fun count sock address is => accepts ⟨count, sock, address, is⟩
  by_cases threaded : ∃ i ans, l = .thread i ans
  · obtain ⟨i, ans, rfl⟩ := threaded
    exact given.move counts few h
  · exact given.outside h (fun i ans is => threaded ⟨i, ans, is⟩) other

/-! ### What a call does past its guard -/

/-- A step that keeps to one session: its members stay, the packets it queues have its ID, and of the
operations only those on its socket are started or cancelled. -/
structure KeepsTo (sock sessionID : Nat) (s s' : Slot) : Prop extends Slot.Keeps s s' where
  queue : s'.SendQueue = s.SendQueue ∨ (∃ packet, s'.SendQueue = s.SendQueue ++ [⟨packet, sessionID⟩]) ∨
    ∃ packet, s.SendQueue = packet :: s'.SendQueue
  receives : s'.recvIo.filter (fun io => io.socket ≠ sock) = s.recvIo.filter fun io => io.socket ≠ sock
  sends : s'.sendIo.filter (fun io => io.socket ≠ sock) = s.sendIo.filter fun io => io.socket ≠ sock

/-- Changing the elements that `p` leaves out does not change what it lets through. -/
theorem filter_map_aside {α : Type} {p : α → Bool} {f : α → α} (out : ∀ a, p a = false → p (f a) = false) (same : ∀ a, p a = true → f a = a)
    (l : List α) : (l.map f).filter p = l.filter p := by
  induction l with
  | nil => rfl
  | cons a l ih =>
    cases is : p a with
    | true => simp [same a is, is, ih]
    | false => simp [out a is, is, ih]

theorem keepsTo_cancelIo (s : Slot) (sessionID : Nat) : KeepsTo s.Socket sessionID s (cancelIo s) := by
  refine ⟨⟨rfl, rfl, rfl, rfl, rfl, rfl⟩, .inl rfl, filter_map_aside ?_ ?_ _, filter_map_aside ?_ ?_ _⟩
  all_goals
    intro io here
    by_cases mine : io.socket = s.Socket <;> simp_all

theorem next_keepsTo (h : next cfg s role ans pc = some (s', pc')) (api : role = .api call sessionID) (other : pc.initialises = false) :
    KeepsTo s.Socket sessionID s s' := by
  have keeps := next_keeps h other
  cases next_moves h with
  | callCancel | recvCancel | sendCancel => exact keepsTo_cancelIo s sessionID
  | callEnqueueShows packet _ sends | callEnqueue packet _ sends =>
    rcases sends with is | is <;> cases api.symm.trans is <;>
    exact ⟨keeps, .inr (.inl ⟨packet, rfl⟩), rfl, rfl⟩
  | sendDequeue _ _ packet _ _ _ queue => exact ⟨keeps, .inr (.inr ⟨packet, queue⟩), rfl, rfl⟩
  | wsaRecv => exact ⟨keeps, .inl rfl, by simp, rfl⟩
  | wsaRecvAtOnce => exact ⟨keeps, .inl rfl, by simp, rfl⟩
  | wsaSend | wsaSendAtOnce => exact ⟨keeps, .inl rfl, rfl, by simp⟩
  | initClearFlag | initDrain | initDropRefs => cases other
  | _ => exact ⟨keeps, .inl rfl, rfl, rfl⟩

/-- The slot holds the session with this ID: it is not released, and nobody initialises it. -/
def Holds (cfg : Config) (s : Slot) (sessionID : Nat) : Prop :=
  s.IoCount < 2 ^ 31 ∧ s.bDisconnected = false ∧ s.ID = sessionID ∧
    (∃ n ∈ s.issued, sessionID = newSessionID cfg n ∧ n = s.accepted) ∧
    ∀ t ∈ s.threads, t.pc.initialises = false

theorem Identified.holds (id : Identified cfg s) (counts : Counts cfg s) (member : t ∈ s.threads) (caller : sessionID ∈ t.caller)
    (acts : 0 < acting t.pc) : Holds cfg s sessionID := by
  have settles := Nat.lt_of_lt_of_le acts (acting_le_settled t.pc)
  have live := counts.inv.live_of_within (mem_stages member) (Nat.lt_of_lt_of_le settles (settled_le_within _))
  have unclosed := counts.inv.unclosed_of_settled (mem_stages member) settles
  have same := id.admitted t member sessionID caller acts
  have nobody : weigh initialising s = 0 := by
    have own := le_weigh (w := acting) member
    have apart := id.exclusive.2
    omega
  have names : weigh naming s = 0 := by
    have openers := weigh_le (s := s) naming_le_opening
    rw [weigh_stage, counts.inv.no_opening unclosed] at openers
    omega
  obtain ⟨n, issued, is_n, near⟩ := id.callers t member sessionID caller
  have latest := newSessionID_inj (is_n.symm.trans (same.symm.trans (id.named names live))) (id.past n issued).1 near
  refine ⟨(Core.live_eq_one.mp live).1, unclosed, same, ⟨n, issued, is_n, latest⟩, fun x hx => initialises_false nobody hx⟩

/-- From its guard to its `DecrementIoCount`, a call's slot holds the session with the call's ID, that of
the latest client accepted, with this client's socket and address; and each step of the call keeps to
that session. -/
theorem call_reaches_own_session (run : Run (slot cfg) (fun s l => Few cfg s l ∧ Called cfg s l) tr s) :
    ∀ i t, s.threads[i]? = some t → ∀ sessionID ∈ t.caller, 0 < acting t.pc → Holds cfg s sessionID ∧
      ∃ count sock address, newest tr = some (count, sock, address) ∧ sessionID = newSessionID cfg count ∧
        s.Socket = sock ∧ s.Address = address ∧ ∀ ans s', step cfg s (.thread i ans) = some s' → KeepsTo sock sessionID s s' := by
  obtain ⟨counts, id⟩ := Run.identified run
  intro i t at_i sessionID caller acts
  have member := List.mem_of_getElem? at_i
  have holds := id.holds counts member caller acts
  have ⟨_, _, _, ⟨n, _, is_n, latest⟩, nobody⟩ := holds
  have settles := Nat.lt_of_lt_of_le acts (acting_le_settled t.pc)
  have live := counts.inv.live_of_within (mem_stages member) (Nat.lt_of_lt_of_le settles (settled_le_within _))
  have unaddresses : weigh unaddressed s = 0 := total_eq_zero.mpr fun x hx => unaddressed_of_not (nobody x hx)
  have unsockets := weigh_le (s := s) unsocketed_le_unaddressed
  cases accepts : newest tr with
  | none =>
    have used := (Core.live_eq_one.mp live).2
    have unused := ((Run.given run).unbegun accepts).1
    exact absurd used (by simp [core, unused])
  | some a =>
    obtain ⟨count, sock, address⟩ := a
    obtain ⟨newest, located⟩ := (Run.given run).begun count sock address accepts
    have socket := located.socketed live (by omega)
    refine ⟨holds, count, sock, address, rfl, by rw [is_n, latest, newest], socket, located.addressed live unaddresses, fun ans s' h => ?_⟩
    obtain ⟨x, u, pc', at_x, taken, rfl⟩ := step_thread h
    obtain rfl := Option.some.inj (at_x.symm.trans at_i)
    obtain ⟨call, api⟩ := role_of_caller caller
    have keeps := next_keepsTo taken api (nobody x member)
    rw [socket] at keeps
    exact ⟨⟨keeps.id, keeps.socket, keeps.address, keeps.key, keeps.inits, keeps.issued⟩, keeps.queue, keeps.receives, keeps.sends⟩

/-- A session whose accept thread is in `OnAccept`, a caller past its guard and another before it. -/
def twoCallers : List Label :=
  .accept 1 7 9 :: List.replicate 15 (Label.thread 0 .go) ++
    .call .getSessionAddress 1 :: List.replicate 4 (Label.thread 1 .go) ++ [.call .getSessionAddress 1, .thread 2 .go]

theorem twoCallers_end (reached : exec (slot plain) unusedSlot twoCallers = some s) :
    (s.IoCount = 3 ∧ s.ID = 1 ∧ s.SessionListKey = 0) ∧ (s.issued = [1] ∧ s.accepted = 1) ∧
      (s.bDisconnected = false ∧ s.bDisconnectRegistered = false) ∧ s.threads = [⟨.accept 1 7 9, .onAcceptReturn⟩,
        ⟨.api .getSessionAddress 1, .callAddress⟩, ⟨.api .getSessionAddress 1, .callTestDisconnected⟩] := by
  have facts : (exec (slot plain) unusedSlot twoCallers).map (fun s => ((s.IoCount, s.ID, s.SessionListKey),
      (s.issued, s.accepted), (s.bDisconnected, s.bDisconnectRegistered), s.threads)) =
      some ((3, 1, 0), ([1], 1), (false, false), [⟨.accept 1 7 9, .onAcceptReturn⟩,
        ⟨.api .getSessionAddress 1, .callAddress⟩, ⟨.api .getSessionAddress 1, .callTestDisconnected⟩]) := by
    decide +kernel
  rw [reached] at facts
  simpa only [Option.map_some, Option.some.injEq, Prod.mk.injEq] using facts

theorem second_caller_reaches_session : ∃ (tr : List (Slot × Label)) (s : Slot), tr.map Prod.snd = twoCallers ∧
    s.threads[1]? = some ⟨.api .getSessionAddress 1, .callAddress⟩ ∧ Holds plain s 1 ∧ s.Socket = 7 ∧ s.Address = 9 := by
  have along : Along (slot plain) (fun s l => Few plain s l ∧ Called plain s l) unusedSlot twoCallers := by
    decide +kernel
  obtain ⟨s, reached, run⟩ := Run.along (.init unusedSlot_fresh) along
  obtain ⟨-, -, -, threads⟩ := twoCallers_end reached
  have member : s.threads[1]? = some ⟨.api .getSessionAddress 1, .callAddress⟩ := by simp [threads]
  obtain ⟨holds, count, sock, address, accepts, -, socket, at_, -⟩ := call_reaches_own_session run 1 _ member 1 rfl (by decide)
  have latest : newest (trace (slot plain) unusedSlot twoCallers) = some (1, 7, 9) := by decide +kernel
  obtain ⟨-, rfl, rfl⟩ : count = 1 ∧ sock = 7 ∧ address = 9 := by
    rw [List.nil_append] at accepts
    simpa [accepts] using latest
  exact ⟨_, s, trace_labels reached, member, holds, socket, at_⟩

/-! ### More callers than `IoCount` can count -/

section Crowd
variable {S : System Slot Label} {C : Slot → Label → Prop} {sessionID : Nat}

theorem one_more_caller (steps : S.step = step cfg)
    (calls : ∀ u, Knows cfg u u.accepted sessionID → C u (.call .getSessionAddress sessionID))
    (free : ∀ u i, C u (.thread i .go)) (run : Run S C tr s) (known : Knows cfg s s.accepted sessionID) :
    ∃ tr' pc, Run S C tr' { s with
      IoCount := inc32 s.IoCount, threads := s.threads ++ [⟨.api .getSessionAddress sessionID, pc⟩] } := by
  have arrived : S.step s (.call .getSessionAddress sessionID) = some (s.spawn (.api .getSessionAddress sessionID) .callIncrement) := by
    rw [steps]
    rfl
  have run := run.step (calls s known) arrived
  have entered : step cfg (s.spawn (.api .getSessionAddress sessionID) .callIncrement) (.thread s.threads.length .go) =
      some { s with
        IoCount := inc32 s.IoCount
        threads := s.threads ++ [⟨.api .getSessionAddress sessionID,
          if isNegative (inc32 s.IoCount) then .decCas false else .callTestDisconnected⟩] } := by
    simp [step, Slot.spawn, next]
    rfl
  exact ⟨_, _, run.step (free _ _) (steps ▸ entered)⟩

theorem crowd (steps : S.step = step cfg)
    (calls : ∀ u, Knows cfg u u.accepted sessionID → C u (.call .getSessionAddress sessionID))
    (free : ∀ u i, C u (.thread i .go)) (run : Run S C tr s) (known : Knows cfg s s.accepted sessionID)
    (word : s.IoCount < 2 ^ 32) (n : Nat) :
    ∃ (tr' : List (Slot × Label)) (pcs : List Pc), Run S C tr' { s with
      IoCount := (s.IoCount + n) % 2 ^ 32
      threads := s.threads ++ pcs.map fun pc => ⟨.api .getSessionAddress sessionID, pc⟩ } := by
  induction n with
  | zero => exact ⟨tr, [], by
    rw [Nat.add_zero, Nat.mod_eq_of_lt word, List.map_nil, List.append_nil]
    exact run⟩
  | succ n ih =>
    obtain ⟨tr', pcs, run⟩ := ih
    obtain ⟨tr', pc, run⟩ := one_more_caller steps calls free run known
    refine ⟨tr', pcs ++ [pc], ?_⟩
    have wraps : inc32 ((s.IoCount + n) % 2 ^ 32) = (s.IoCount + (n + 1)) % 2 ^ 32 := by
      unfold inc32
      omega
    rw [← wraps, List.map_append, ← List.append_assoc]
    exact run

end Crowd

/-- A caller that finds its ID and leaves with a count of 1 releases the session. -/
theorem caller_releases (one : s.IoCount = 1) (id : s.ID = 1) (key : s.SessionListKey = 0)
    (unclosed : s.bDisconnected = false ∧ s.bDisconnectRegistered = false) :
    solo { plain with countsLater, countWraps } (.api .getSessionAddress 1) (List.replicate 11 .go) (s, .callTestDisconnected) = some ({ s with
      IoCount := releaseFlag, bDisconnected := true, posted := s.posted ++ [1], unusedKeys := s.unusedKeys + 1 },
      .finished) := by
  obtain ⟨closed, registered⟩ := unclosed
  cases s
  simp only at one id key closed registered
  subst one id key closed registered
  rfl

/-- The last thread of a live session is a caller in its guard; it leaves after 2^32 others have come,
and takes the session with it. -/
theorem crowd_releases {S : System Slot Label} {C : Slot → Label → Prop} (parked : List Thread)
    (steps : S.step = step { plain with countsLater, countWraps })
    (calls : ∀ u, Knows plain u u.accepted 1 → C u (.call .getSessionAddress 1)) (free : ∀ u i, C u (.thread i .go))
    (run : Run S C tr s) (known : Knows plain s s.accepted 1) (count : 0 < s.IoCount ∧ s.IoCount < 2 ^ 32) (id : s.ID = 1)
    (key : s.SessionListKey = 0) (unclosed : s.bDisconnected = false ∧ s.bDisconnectRegistered = false)
    (threads : s.threads = parked ++ [⟨.api .getSessionAddress 1, .callTestDisconnected⟩]) :
    ∃ (tr' : List (Slot × Label)) (pcs : List Pc), Run S C tr' { s with
      IoCount := releaseFlag, bDisconnected := true, posted := s.posted ++ [1], unusedKeys := s.unusedKeys + 1
      threads := parked ++ (.finished :: pcs).map fun pc => ⟨.api .getSessionAddress 1, pc⟩ } := by
  obtain ⟨tr, pcs, run⟩ := crowd steps calls free run known count.2 (2 ^ 32 + 1 - s.IoCount)
  have one : (s.IoCount + (2 ^ 32 + 1 - s.IoCount)) % 2 ^ 32 = 1 := by omega
  rw [one] at run
  have left := exec_solo (S := S) steps (i := parked.length) (t := ⟨.api .getSessionAddress 1, .callTestDisconnected⟩)
    (by simp [threads]) (caller_releases (s := { s with
      IoCount := 1
      threads := s.threads ++ pcs.map fun pc => ⟨.api .getSessionAddress 1, pc⟩ }) rfl id key unclosed)
  obtain ⟨more, -, run⟩ := Run.exec run left fun u l member => by
    obtain ⟨ans, parked, rfl⟩ := List.mem_map.mp member
    rw [List.eq_of_mem_replicate parked]
    exact free u _
  refine ⟨tr ++ more, pcs, ?_⟩
  simpa [threads] using run

theorem crowded_call_loses_session : ∃ tr s, Run (slot plain) (Called plain) tr s ∧
    ∃ t ∈ s.threads, ∃ sessionID ∈ t.caller, 0 < acting t.pc ∧ ¬ Holds plain s sessionID := by
  have along : Along (slot plain) (Called plain) unusedSlot twoCallers := by decide +kernel
  obtain ⟨s, reached, run⟩ := Run.along (.init unusedSlot_fresh) along
  obtain ⟨⟨count, id, key⟩, ⟨issued, accepted⟩, unclosed, threads⟩ := twoCallers_end reached
  have known : Knows plain s s.accepted 1 := by
    rw [accepted]
    exact ⟨1, by simp [issued], rfl, by decide⟩
  obtain ⟨tr, pcs, run⟩ := crowd_releases (S := slot plain) [_, _] rfl (fun _ known => known)
    (fun _ _ => trivial) run known (by omega) id key unclosed threads
  refine ⟨_, _, run, ⟨.api .getSessionAddress 1, .callAddress⟩, by simp, 1, rfl, by decide, ?_⟩
  rintro ⟨count, -⟩
  exact absurd count (by simp [releaseFlag])

end WanNet.Session
