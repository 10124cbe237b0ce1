import WanNet.Lib.ReleaseCount
import WanNet.Session.Model

/-!
`IoCount` over any interleaving: its low bits count the references held, and a slot is released once
between two `Init`s, by the holder of the last one.
-/

namespace WanNet.Session
open Transition Threads ReleaseCount

/-! ### The slot as a released and revived object -/

def stage : Pc → Stage
  | .callIncrement => .arriving
  | .callTestDisconnected => .checking
  | .acceptIncrement => .reviving false
  | .initClearFlag => .reviving true
  | .initID | .initSocket | .initAddress | .initSendFlag | .initKey | .initDisconnected => .opening
  | .initRegistered | .initRecvBuffer | .initDrain | .initDropRefs _ | .initRegisteredCount
  | .acceptCount | .onAccept => .settling
  | .wsaRecv _ _ | .wsaSend _ => .inside true
  | .decCas again | .decDecrement again => .leaving again
  | .decIncrement again => .undoing again
  | .releaseTest again => .closing again
  | .releaseClose again | .releaseDisconnectedCount again | .releaseSessionCount again
  | .releasePost again | .releasePush again => .releasing again
  | .onRelease _ | .finished => .gone
  | .crashed refs => .crashed refs
  | _ => .inside false

def core (s : Slot) : Core :=
  ⟨s.IoCount, s.bDisconnected, s.unusedKeys, s.inits, s.recvIo.length + s.sendIo.length⟩

def stages (s : Slot) : List Stage := s.threads.map fun t => stage t.pc

/-- The references held on the slot: by the threads in it, and by its pending operations. -/
def references (s : Slot) : Nat :=
  (s.threads.map fun t => held (stage t.pc)).sum + s.recvIo.length + s.sendIo.length

variable {cfg : Config} {s s' u : Slot} {role : Role} {ans : Answer} {pc pc' : Pc} {t : Thread} {i : Nat}

theorem move_stay (same : core s' = core s) (there : stage pc' = stage pc) :
    Move (core s) (stage pc) (core s') (stage pc') := by
  rw [same, there]
  exact .stay ..

theorem and_low31 (x : Nat) : x &&& 0x7FFFFFFF = x % ReleaseCount.flag :=
  Nat.and_two_pow_sub_one_eq_mod x 31

theorem core_cancelIo (s : Slot) : core (cancelIo s) = core s := by simp [core, cancelIo]

theorem isNegative_iff {x : Nat} : isNegative x = true ↔ flag ≤ x := by simp [isNegative, flag]

theorem next_move (h : next cfg s role ans pc = some (s', pc'))
    (key : ∀ again, pc = .releasePush again → s.SessionListKey = cfg.key) :
    Move (core s) (stage pc) (core s') (stage pc') := by
  have posted_recv (io : RecvIo) : (s.recvIo ++ [io]).length + s.sendIo.length = (core s).ops + 1 := by
    simp [core, Nat.add_right_comm]
  have posted_send (io : SendIo) : s.recvIo.length + (s.sendIo ++ [io]).length = (core s).ops + 1 := by
    simp [core, Nat.add_assoc]
  cases next_moves h with
  | callIncrement held =>
    exact .enter (core s) (Nat.lt_of_not_le fun le => Bool.false_ne_true (held.symm.trans (isNegative_iff.mpr le)))
  | callReleased released => exact .enterReleased (core s) (isNegative_iff.mp released)
  | callTestDisconnected connected => exact .allow _ connected
  | callDisconnected => exact .refuse _
  | callRegistered | callOther | callAddress | sendDoneRegistered | recvDoneEnds | recvLoopEnds | recvDisconnected | recvRegistered | recvPosted
  | sendNothing | sendDisconnected | sendRegistered | sendFlagTaken | sendGiveBack | sendPosted | wsaRecvFails | wsaSendFails =>
    exact .leave (core s) _
  | callCancel | recvCancel | sendCancel =>
    rw [core_cancelIo]
    exact .leave _ _
  | acceptIncrement => exact .revive (core s)
  | initClearFlag =>
    have := Move.clear (core s)
    rwa [← and_low31] at this
  | initDisconnected => exact .unclose (core s)
  | onAccept => exact .settle _
  | sendDoneCrash | sendGiveBackCrash | sendDequeueCrash => exact .crash (core s)
  | recvIncrement | sendIncrement => exact .take (core s)
  | wsaRecv =>
    have := Move.post (core s)
    rwa [← posted_recv] at this
  | wsaRecvAtOnce =>
    have := Move.postAndLeave (core s)
    rwa [← posted_recv] at this
  | wsaSend =>
    have := Move.post (core s)
    rwa [← posted_send] at this
  | wsaSendAtOnce =>
    have := Move.postAndLeave (core s)
    rwa [← posted_send] at this
  | decCas again last => exact .last (core s) _ last
  | decToZero again zero => exact .dropToZero (core s) _ zero
  | decDecrement again left =>
    cases again with
    | true => exact .dropOne (core s) left
    | false => exact .drop (core s) left
  | decIncrement => exact .undo (core s) _
  | releaseTest again connected => exact .close (core s) _ connected
  | releaseCrash again disconnected =>
    have := Move.closeTwice (core s) again disconnected
    cases again <;> simpa [core, disconnected, stage] using this
  | releasePush again =>
    rw [if_pos (key again rfl)]
    cases again with
    | true => exact .giveBackOne (core s)
    | false => exact .giveBack (core s)
  | _ => exact move_stay rfl rfl

/-! ### The threads of the slot -/

theorem stages_moved : stages (s.moved u i t pc') = (stages s).set i (stage pc') := by
  simp [stages, List.map_set]

theorem stages_at (at_i : s.threads[i]? = some t) : (stages s)[i]? = some (stage t.pc) := by simp [stages, at_i]

theorem mem_stages (member : t ∈ s.threads) : stage t.pc ∈ stages s := List.mem_map_of_mem member

theorem mem_moved {x : Thread} (h : x ∈ (s.moved u i t pc').threads) :
    x ∈ s.threads ∨ x = ⟨t.role, pc'⟩ :=
  List.mem_or_eq_of_mem_set h

/-- A weight of program counters, added up over the threads. -/
def weigh (w : Pc → Nat) (s : Slot) : Nat := total (fun t => w t.pc) s.threads

theorem weigh_stage (w : Stage → Nat) : weigh (fun pc => w (stage pc)) s = total w (stages s) :=
  (total_map ..).symm

theorem weigh_moved (w : Pc → Nat) (u : Slot) (pc' : Pc) (at_i : s.threads[i]? = some t) :
    weigh w (s.moved u i t pc') + w t.pc = weigh w s + w pc' :=
  total_set at_i

theorem weigh_join {w : Pc → Nat} (threads : s'.threads = s.threads ++ new) :
    weigh w s' = weigh w s + total (fun t => w t.pc) new := by
  unfold weigh
  rw [threads, total_append]

theorem weigh_add {v w : Pc → Nat} : weigh (fun pc => v pc + w pc) s = weigh v s + weigh w s := total_add fun _ => rfl

theorem le_weigh {w : Pc → Nat} (member : t ∈ s.threads) : w t.pc ≤ weigh w s :=
  le_total (w := fun t : Thread => w t.pc) member

theorem weigh_le {v w : Pc → Nat} (h : ∀ pc, v pc ≤ w pc) : weigh v s ≤ weigh w s := total_le_total (fun _ => h _) _

/-! ### The key of the slot -/

/-- The accept thread is about to write `SessionListKey` of a revived slot. -/
def unkeyed : Pc → Nat
  | .initID | .initSocket | .initAddress | .initSendFlag | .initKey => 1
  | _ => 0

theorem unkeyed_le_within (pc : Pc) : unkeyed pc ≤ within (stage pc) := by
  cases pc <;> simp [unkeyed, stage]

/-- `SessionListKey` is the slot's key by the time someone releases the slot. -/
def Keyed (cfg : Config) (s : Slot) : Prop :=
  s.SessionListKey = cfg.key ∨
    (total releasing (stages s) = 0 ∧ (s.inits = 0 ∨ 0 < weigh unkeyed s))

theorem next_unkeyed (h : next cfg s role ans pc = some (s', pc')) :
    s'.SessionListKey = cfg.key ∨ (s'.SessionListKey = s.SessionListKey ∧ unkeyed pc ≤ unkeyed pc' ∧
      (s'.inits = s.inits ∨ 0 < unkeyed pc')) := by
  by_cases initialising : pc.initialises = true
  · cases next_moves h with
    | initKey => exact .inl rfl
    | initClearFlag => exact .inr ⟨rfl, Nat.zero_le _, .inr Nat.one_pos⟩
    | initID | initSocket | initAddress | initSendFlag => exact .inr ⟨rfl, Nat.le_refl _, .inl rfl⟩
    | _ => exact .inr ⟨rfl, Nat.zero_le _, .inl rfl⟩
  · have keeps := next_keeps h (by simpa using initialising)
    have none : unkeyed pc = 0 := by
      cases pc <;> simp [Pc.initialises] at initialising <;> rfl
    exact .inr ⟨keeps.key, by omega, .inl keeps.inits⟩

/-! ### The invariant of a slot -/

theorem refs_core (s : Slot) : refs (core s) (stages s) = references s := by
  simp [refs, core, stages, references, total, Function.comp_def, Nat.add_assoc]

theorem next_references (h : next cfg s role ans pc = some (s', pc')) :
    held (stage pc') + (s'.recvIo.length + s'.sendIo.length) ≤ held (stage pc) + (s.recvIo.length + s.sendIo.length) + 1 := by
  cases next_moves h with
  | decDecrement again | releaseCrash again | releasePush again => cases again <;> simp [stage, decReturn] <;> omega
  | _ => simp [stage, cancelIo, fill] <;> omega

/-- A step adds one reference at most. -/
theorem step_references (h : step cfg s l = some s') : references s' ≤ references s + 1 := by
  cases l with
  | accept count sock address =>
    obtain ⟨-, rfl⟩ := step_accept h
    simp [references, stage]
  | call call sessionID =>
    obtain rfl := Option.some.inj h
    simp [references, stage, Slot.spawn]
  | recvCompletes j data =>
    obtain ⟨io, -, -, rfl⟩ := step_recvCompletes h
    simp [references, fill]
  | recvFails j =>
    obtain ⟨io, -, rfl⟩ := step_recvFails h
    simp [references]
  | sendCompletes j =>
    obtain ⟨io, -, rfl⟩ := step_sendCompletes h
    simp [references]
  | sendFails j =>
    obtain ⟨io, -, rfl⟩ := step_sendFails h
    simp [references]
  | workRecv j =>
    obtain ⟨io, success, n, at_j, -, rfl⟩ := step_workRecv h
    have := List.length_eraseIdx_le s.recvIo j
    cases success <;> simp [references, stage] <;> omega
  | workSend j =>
    obtain ⟨io, success, n, at_j, -, rfl⟩ := step_workSend h
    have := List.length_eraseIdx_le s.sendIo j
    cases success <;> simp [references, stage] <;> omega
  | workRelease j =>
    obtain ⟨sessionID, -, rfl⟩ := step_workRelease h
    simp [references, stage]
  | thread i ans =>
    obtain ⟨t, u, pc', at_i, taken, rfl⟩ := step_thread h
    have bound := next_references taken
    have changed := total_set (w := held) (b := stage pc') (stages_at at_i)
    rw [← refs_core, ← refs_core, stages_moved]
    show total held ((stages s).set i (stage pc')) + (u.recvIo.length + u.sendIo.length) ≤ total held (stages s) + (s.recvIo.length + s.sendIo.length) + 1
    omega

/-- Fewer than 2^31 - 1 references after the step. -/
def Few (cfg : Config) (s : Slot) (l : Label) : Prop := ∀ s' ∈ step cfg s l, references s' < 2 ^ 31 - 1

/-- Calls come when the slot has been initialised, with whatever ID. -/
def Used (s : Slot) : Label → Prop
  | .call _ _ => 0 < s.inits ∨ 2 ^ 31 ≤ s.IoCount
  | _ => True

def Bounded (cfg : Config) (s : Slot) (l : Label) : Prop := Few cfg s l ∧ Used s l

instance : Decidable (Few cfg s l) := inferInstanceAs (Decidable (∀ s' ∈ step cfg s l, references s' < 2 ^ 31 - 1))

instance : Decidable (Used s l) :=
  match l with
  | .call _ _ => inferInstanceAs (Decidable (_ ∨ _))
  | .accept _ _ _ | .recvCompletes _ _ | .recvFails _ | .sendCompletes _ | .sendFails _ | .workRecv _ | .workSend _
  | .workRelease _ | .thread _ _ => .isTrue trivial

instance : Decidable (Bounded cfg s l) := inferInstanceAs (Decidable (_ ∧ _))

structure Counts (cfg : Config) (s : Slot) : Prop where
  inv : Inv (core s) (stages s)
  keyed : Keyed cfg s

theorem Counts.init (fresh : s.Fresh) : Counts cfg s := by
  obtain ⟨threads, recvIo, sendIo, -⟩ := fresh.idle
  have none : stages s = [] := by simp [stages, threads]
  have core_eq : core s = ⟨s.IoCount, true, 1, 0, 0⟩ := by
    simp [core, fresh.disconnected, fresh.free, fresh.unused.1, recvIo, sendIo]
  refine ⟨?_, .inr ⟨by simp [none], .inl fresh.unused.1⟩⟩
  rw [none, core_eq]
  rcases fresh.count with ⟨zero, -⟩ | released
  · rw [zero]
    exact ⟨by decide, by decide, by decide, by decide, by decide, by decide, by decide⟩
  · rw [released]
    exact ⟨by decide, by decide, by decide, by decide, by decide, by decide, by decide⟩

theorem length_eraseIdx_add_one {l : List α} (h : l[j]? = some a) : (l.eraseIdx j).length + 1 = l.length := by
  have := (List.getElem?_eq_some_iff.mp h).1
  rw [List.length_eraseIdx_of_lt this]
  omega

/-- Outside the threads, only accepting, picking up a completion and the arrival of a call matter. -/
theorem Inv.step_spawn (inv : Inv (core s) (stages s)) (h : step cfg s l = some s')
    (known : Bounded cfg s l) (spawned : ∀ i ans, l ≠ .thread i ans) : Inv (core s') (stages s') := by
  cases l with
  | accept count sock address =>
    obtain ⟨key, rfl⟩ := step_accept h
    have := inv.pop_key key
    simpa [stages, stage, core] using this
  | call call sessionID =>
    obtain rfl := Option.some.inj h
    have := inv.arrive known.2
    simpa [stages, stage, core, Slot.spawn] using this
  | recvCompletes j data =>
    obtain ⟨io, -, -, rfl⟩ := step_recvCompletes h
    simpa [stages, core, fill] using inv
  | recvFails j =>
    obtain ⟨io, -, rfl⟩ := step_recvFails h
    simpa [stages, core] using inv
  | sendCompletes j =>
    obtain ⟨io, -, rfl⟩ := step_sendCompletes h
    simpa [stages, core] using inv
  | sendFails j =>
    obtain ⟨io, -, rfl⟩ := step_sendFails h
    simpa [stages, core] using inv
  | workRecv j =>
    obtain ⟨io, success, n, at_j, -, rfl⟩ := step_workRecv h
    have shorter := length_eraseIdx_add_one at_j
    have := inv.pick_up (by simp only [core]; omega) success
    have ops : (core s).ops - 1 = (s.recvIo.eraseIdx j).length + s.sendIo.length := by
      simp only [core]
      omega
    rw [ops] at this
    cases success <;> simpa [stages, stage, core] using this
  | workSend j =>
    obtain ⟨io, success, n, at_j, -, rfl⟩ := step_workSend h
    have shorter := length_eraseIdx_add_one at_j
    have := inv.pick_up (by simp only [core]; omega) success
    have ops : (core s).ops - 1 = s.recvIo.length + (s.sendIo.eraseIdx j).length := by
      simp only [core]
      omega
    rw [ops] at this
    cases success <;> simpa [stages, stage, core] using this
  | workRelease j =>
    obtain ⟨sessionID, -, rfl⟩ := step_workRelease h
    simpa [stages, stage, core] using inv.pass_by
  | thread i ans => exact absurd rfl (spawned i ans)

theorem releasing_start (start : pc.Start) : releasing (stage pc) = 0 := by
  cases pc <;> simp_all [Pc.Start, stage]

theorem Keyed.step_spawn (keyed : Keyed cfg s) (h : step cfg s l = some s')
    (outside : ∀ i ans, l ≠ .thread i ans) : Keyed cfg s' := by
  obtain ⟨same, threads⟩ := step_outside h outside
  unfold Keyed weigh stages at *
  rw [same.key, same.inits]
  rcases threads with same | ⟨t, more, start⟩
  · rwa [same]
  · rw [more, List.map_append, List.map_singleton]
    simp only [total_append_one, releasing_start start]
    omega

theorem Counts.key_at_push (counts : Counts cfg s) (member : t ∈ s.threads) (push : t.pc = .releasePush again) :
    s.SessionListKey = cfg.key := by
  rcases counts.keyed with key | ⟨none, -⟩
  · exact key
  · have own := le_total (w := releasing) (mem_stages member)
    rw [none, push] at own
    simp [stage] at own

theorem Counts.move (counts : Counts cfg s) (member : t ∈ s.threads)
    (h : next cfg s t.role ans t.pc = some (s', pc')) : Move (core s) (stage t.pc) (core s') (stage pc') :=
  next_move h fun _ => counts.key_at_push member

theorem Keyed.step_move (counts : Counts cfg s) (at_i : s.threads[i]? = some t)
    (taken : next cfg s t.role ans t.pc = some (s', pc')) :
    Keyed cfg (s.moved s' i t pc') := by
  have stage_i := stages_at at_i
  have moved := counts.move (List.mem_of_getElem? at_i) taken
  rcases next_unkeyed taken with key | ⟨key, le, inits⟩
  · exact .inl key
  rcases counts.keyed with keyed | ⟨none, early⟩
  · exact .inl (key.trans keyed)
  refine .inr ⟨?_, ?_⟩
  · rw [stages_moved]
    have changed := total_set (w := releasing) (b := stage pc') stage_i
    rcases moved.releasing_le with le | ⟨m, leaving, one⟩
    · omega
    · -- the last reference leaves a slot that was initialised, key included
      rw [leaving] at stage_i
      have alone := counts.inv.alone_at_last stage_i one
      have live := counts.inv.live_of_busy (List.mem_of_getElem? stage_i) (by simp) (by rw [one]; decide)
      have used : 0 < s.inits := (Core.live_eq_one.mp live).2
      have keyless := weigh_le (s := s) unkeyed_le_within
      rw [weigh_stage] at keyless
      omega
  · have changed := weigh_moved unkeyed s' pc' at_i
    have own := le_weigh (w := unkeyed) (List.mem_of_getElem? at_i)
    show s'.inits = 0 ∨ _
    omega

theorem Counts.step_move (counts : Counts cfg s) (bounded : Bounded cfg s (.thread i ans))
    (h : step cfg s (.thread i ans) = some s') : Counts cfg s' := by
  have few := bounded.1 s' h
  obtain ⟨t, u, pc', at_i, taken, rfl⟩ := step_thread h
  have member := List.mem_of_getElem? at_i
  have stage_i := stages_at at_i
  have moved := counts.move member taken
  rw [← refs_core, stages_moved] at few
  refine ⟨?_, Keyed.step_move counts at_i taken⟩
  rw [stages_moved]
  exact counts.inv.move stage_i moved few

theorem Counts.step (counts : Counts cfg s) (bounded : Bounded cfg s l) (h : step cfg s l = some s') :
    Counts cfg s' := by
  by_cases threaded : ∃ i ans, l = .thread i ans
  · obtain ⟨i, ans, rfl⟩ := threaded
    exact counts.step_move bounded h
  · have outside (i ans) : l ≠ .thread i ans := fun is => threaded ⟨i, ans, is⟩
    exact ⟨Inv.step_spawn counts.inv h bounded outside, counts.keyed.step_spawn h outside⟩

theorem Run.counts (run : Run (slot cfg) (Bounded cfg) tr s) : Counts cfg s :=
  run.invariant_state (fun _ fresh => Counts.init fresh) fun _ _ _ counts bounded h => counts.step bounded h

/-! ### Initialised, released, pushed -/

inductive Event where
  | init
  | release
  | push
  deriving DecidableEq

/-- `Init` clears the release flag; the release part of `DecrementIoCount` is entered; it pushes
`SessionListKey` to `mUnusedSessionKeys`. -/
def eventAt (s : Slot) : Pc → Option Event
  | .initClearFlag => some .init
  | .decCas _ => if s.IoCount = 1 then some .release else none
  | .releasePush _ => some .push
  | _ => none

def eventOf (s : Slot) : Label → Option Event
  | .thread i _ => (s.threads[i]?).bind fun t => eventAt s t.pc
  | _ => none

def events (tr : List (Slot × Label)) : List Event := tr.filterMap fun x => eventOf x.1 x.2

def Event.after : Event → Event
  | .init => .release
  | .release => .push
  | .push => .init

/-- The event whose turn it is, or none when one has come out of the order init, release, push, init, … -/
def due (es : List Event) : Option Event :=
  es.foldl (fun turn e => if turn = some e then some e.after else none) (some .init)

/-- The event that comes next in a slot. -/
def turn (s : Slot) : Event :=
  if 0 < s.unusedKeys + total reviving (stages s) then .init
  else if (core s).live = 1 then .release
  else .push

theorem next_quiet (h : next cfg s role ans pc = some (s', pc')) (quiet : eventAt s pc = none) :
    s'.unusedKeys = s.unusedKeys ∧ reviving (stage pc') = reviving (stage pc) ∧ stage pc ≠ .reviving true ∧
      ∀ m, stage pc = .leaving m → stage pc' ≠ .closing m := by
  cases next_moves h with
  | initClearFlag | releasePush => cases quiet
  | decCas again last => simp [eventAt, last] at quiet
  | decDecrement again => cases again <;> simp [stage, decReturn]
  | _ => simp [stage, cancelIo, fill]

theorem live_eq {u : Slot} (count : u.IoCount = s.IoCount) (inits : u.inits = s.inits) :
    (core u).live = (core s).live :=
  Core.live_congr (by simp [core, count]) inits

/-- Outside the threads nothing comes next: accepting moves the key to the accept thread. -/
theorem turn_outside (h : step cfg s l = some s') (outside : ∀ i ans, l ≠ .thread i ans) : turn s' = turn s := by
  have same := (step_outside h outside).1
  have live : (core s').live = (core s).live := live_eq same.count same.inits
  have keys : s'.unusedKeys + total reviving (stages s') = s.unusedKeys + total reviving (stages s) := by
    cases l with
    | accept count sock address =>
      obtain ⟨key, rfl⟩ := step_accept h
      simp [stages, stage]
      omega
    | call call sessionID =>
      obtain rfl := Option.some.inj h
      simp [stages, stage, Slot.spawn]
    | recvCompletes j data =>
      obtain ⟨io, -, -, rfl⟩ := step_recvCompletes h
      rfl
    | recvFails j =>
      obtain ⟨io, -, rfl⟩ := step_recvFails h
      rfl
    | sendCompletes j =>
      obtain ⟨io, -, rfl⟩ := step_sendCompletes h
      rfl
    | sendFails j =>
      obtain ⟨io, -, rfl⟩ := step_sendFails h
      rfl
    | workRecv j =>
      obtain ⟨io, success, n, -, -, rfl⟩ := step_workRecv h
      cases success <;> simp [stages, stage]
    | workSend j =>
      obtain ⟨io, success, n, -, -, rfl⟩ := step_workSend h
      cases success <;> simp [stages, stage]
    | workRelease j =>
      obtain ⟨sessionID, -, rfl⟩ := step_workRelease h
      simp [stages, stage]
    | thread i ans => exact absurd rfl (outside i ans)
  unfold turn
  rw [live, keys]

theorem turn_init (waiting : 0 < s.unusedKeys + total reviving (stages s)) : turn s = .init := if_pos waiting

theorem turn_release (inv : Inv (core s) (stages s)) (live : (core s).live = 1) : turn s = .release := by
  have owner : s.unusedKeys + _ + _ + _ = 1 := inv.one_owner
  unfold turn
  rw [if_neg (by omega), if_pos live]

theorem turn_push (inv : Inv (core s) (stages s)) (ending : 0 < total releasing (stages s)) : turn s = .push := by
  have owner : s.unusedKeys + _ + _ + _ = 1 := inv.one_owner
  unfold turn
  rw [if_neg (by omega), if_neg (by omega)]

theorem turn_quiet (counts : Counts cfg s) (at_i : s.threads[i]? = some t)
    (taken : next cfg s t.role ans t.pc = some (u, pc')) (few : references (s.moved u i t pc') < 2 ^ 31 - 1)
    (quiet : eventAt s t.pc = none) : turn (s.moved u i t pc') = turn s := by
  have stage_i := stages_at at_i
  obtain ⟨keys, reviver, unrevived, unreleased⟩ := next_quiet taken quiet
  rw [← refs_core, stages_moved] at few
  have moved := counts.move (List.mem_of_getElem? at_i) taken
  have live : (core u).live = (core s).live := by
    rcases (counts.inv.move_live stage_i moved few).2 with same | ⟨revived, -⟩ | ⟨⟨m, leaving, closing⟩, -⟩
    · exact same
    · exact absurd revived unrevived
    · exact absurd closing (unreleased m leaving)
  have revivers := total_set (w := reviving) (b := stage pc') stage_i
  have waiting : u.unusedKeys + total reviving (stages (s.moved u i t pc')) =
      s.unusedKeys + total reviving (stages s) := by
    rw [stages_moved, keys]
    omega
  unfold turn
  show (if 0 < u.unusedKeys + _ then _ else if (core u).live = 1 then _ else _) = _
  rw [waiting, live]

theorem turn_event (counts : Counts cfg s) (at_i : s.threads[i]? = some t)
    (taken : next cfg s t.role ans t.pc = some (u, pc')) (after : Counts cfg (s.moved u i t pc'))
    (event : eventAt s t.pc = some e) : e = turn s ∧ turn (s.moved u i t pc') = e.after := by
  have member := mem_stages (List.mem_of_getElem? at_i)
  have stage_i := stages_at at_i
  have put : stage pc' ∈ stages (s.moved u i t pc') := by
    rw [stages_moved]
    exact List.mem_set (List.getElem?_eq_some_iff.mp stage_i).1 _
  cases here : t.pc
  all_goals rw [here] at event taken member
  all_goals simp only [eventAt, reduceCtorEq] at event
  case initClearFlag =>
    cases event
    cases taken
    have waiting := le_total (w := reviving) member
    refine ⟨(turn_init (Nat.lt_of_lt_of_le Nat.one_pos (Nat.le_trans waiting (Nat.le_add_left ..)))).symm, ?_⟩
    exact turn_release after.inv (after.inv.live_of_within put Nat.one_pos)
  case decCas again =>
    split at event
    next one =>
      cases event
      simp only [next, if_pos one] at taken
      cases taken
      have live := counts.inv.live_of_busy member Nat.one_pos (by simp [core, one, flag])
      exact ⟨(turn_release counts.inv live).symm,
        turn_push after.inv (Nat.lt_of_lt_of_le Nat.one_pos (le_total (w := releasing) put))⟩
    next => cases event
  case releasePush again =>
    cases event
    have ending := le_total (w := releasing) member
    refine ⟨(turn_push counts.inv (Nat.lt_of_lt_of_le Nat.one_pos ending)).symm, turn_init ?_⟩
    have key := counts.key_at_push (List.mem_of_getElem? at_i) here
    simp only [next, if_pos key] at taken
    cases taken
    show 0 < s.unusedKeys + 1 + _
    omega

theorem turn_step (counts : Counts cfg s) (bounded : Bounded cfg s l) (h : step cfg s l = some s') :
    (eventOf s l = none ∧ turn s' = turn s) ∨ (eventOf s l = some (turn s) ∧ turn s' = (turn s).after) := by
  have after := counts.step bounded h
  by_cases threaded : ∃ i ans, l = .thread i ans
  · obtain ⟨i, ans, rfl⟩ := threaded
    have few := bounded.1 s' h
    obtain ⟨t, u, pc', at_i, taken, rfl⟩ := step_thread h
    have event : eventOf s (.thread i ans) = eventAt s t.pc := by simp [eventOf, at_i]
    rw [event]
    cases here : eventAt s t.pc with
    | none => exact .inl ⟨rfl, turn_quiet counts at_i taken few here⟩
    | some e =>
      obtain ⟨rfl, next⟩ := turn_event counts at_i taken after here
      exact .inr ⟨rfl, next⟩
  · have outside (i ans) : l ≠ .thread i ans := fun is => threaded ⟨i, ans, is⟩
    refine .inl ⟨?_, turn_outside h outside⟩
    cases l <;> first | rfl | exact absurd rfl (outside _ _)

theorem due_events (run : Run (slot cfg) (Bounded cfg) tr s) : due (events tr) = some (turn s) := by
  induction run with
  | init fresh =>
    have : turn _ = .init := if_pos (by rw [fresh.free]; omega)
    rw [this]
    rfl
  | step before bounded h ih =>
    unfold events due at *
    rw [List.filterMap_append, List.foldl_append, ih]
    rcases turn_step (Run.counts before) bounded h with ⟨none, same⟩ | ⟨event, after⟩
    · simp [none, same]
    · simp [event, after]

/-! ### One push for each release -/

def pops (tr : List (Slot × Label)) : Nat :=
  tr.countP fun x => match x.2 with
    | .accept _ _ _ => true
    | _ => false

theorem pops_thread : pops (tr ++ [(s, .thread i ans)]) = pops tr := by simp [pops]

theorem count_events (e : Event) :
    (events (tr ++ [(s, l)])).count e = (events tr).count e + (eventOf s l).toList.count e := by
  unfold events
  rw [List.filterMap_append, List.count_append]
  cases is : eventOf s l <;> simp [is]

/-- A thread is in the release part from the event `release` to the event `push`, and only that one
brings the key back. -/
theorem next_releases (h : next cfg s role ans pc = some (s', pc'))
    (connected : ∀ again, pc = .releaseTest again → s.bDisconnected = false)
    (key : ∀ again, pc = .releasePush again → s.SessionListKey = cfg.key) :
    (eventAt s pc).toList.count .release + releasing (stage pc) = (eventAt s pc).toList.count .push + releasing (stage pc') ∧
      s'.unusedKeys = s.unusedKeys + (eventAt s pc).toList.count .push := by
  cases next_moves h with
  | decCas again last => simp [eventAt, last, stage]
  | decToZero again | decDecrement again => cases again <;> simp_all [eventAt, stage, decReturn]
  | releaseCrash again disconnected => exact absurd (connected again rfl) (by simp [disconnected])
  | releasePush again =>
    have key := key again rfl
    cases again <;> simp [eventAt, stage, key, decReturn]
  | _ => simp_all [eventAt, stage, cancelIo, fill]

/-- What the events of a run tell of its last state: the releases without their push are going on, and
the key is in `mUnusedSessionKeys` when all pops but the first had a push before. -/
structure Pushed (tr : List (Slot × Label)) (s : Slot) : Prop where
  each : (events tr).count .release = (events tr).count .push + total releasing (stages s)
  keys : s.unusedKeys + pops tr = 1 + (events tr).count .push

theorem Pushed.init (fresh : s.Fresh) : Pushed [] s :=
  ⟨by simp [events, stages, fresh.idle.1], by rw [fresh.free]; rfl⟩

theorem Pushed.outside (pushed : Pushed tr s) (h : step cfg s l = some s') (outside : ∀ i ans, l ≠ .thread i ans) :
    Pushed (tr ++ [(s, l)]) s' := by
  have quiet : eventOf s l = none := by cases l <;> first | rfl | exact absurd rfl (outside _ _)
  obtain ⟨each, keys⟩ := pushed
  have releasers : total releasing (stages s') = total releasing (stages s) := by
    rcases (step_outside h outside).2 with same | ⟨t, more, start⟩
    · rw [stages, same, stages]
    · simp only [stages, more, List.map_append, List.map_singleton, total_append_one, releasing_start start, Nat.add_zero]
  refine ⟨?_, ?_⟩
  · simp only [count_events, quiet, releasers, Option.toList_none, List.count_nil]
    exact each
  · simp only [count_events, quiet, Option.toList_none, List.count_nil]
    cases l with
    | accept count sock address =>
      obtain ⟨free, rfl⟩ := step_accept h
      simp only [pops, List.countP_append, List.countP_singleton] at keys ⊢
      simp only [if_true]
      omega
    | thread i ans => exact absurd rfl (outside i ans)
    | _ =>
      have same : s'.unusedKeys = s.unusedKeys := (step_unaccepted h outside (by simp)).1.1
      simpa [pops, same] using keys

theorem Pushed.step (pushed : Pushed tr s) (counts : Counts cfg s) (h : step cfg s l = some s') :
    Pushed (tr ++ [(s, l)]) s' := by
  by_cases threaded : ∃ i ans, l = .thread i ans
  · obtain ⟨i, ans, rfl⟩ := threaded
    obtain ⟨t, u, pc', at_i, taken, rfl⟩ := step_thread h
    have member := List.mem_of_getElem? at_i
    have event : eventOf s (.thread i ans) = eventAt s t.pc := by simp [eventOf, at_i]
    obtain ⟨part, keys⟩ := next_releases taken
      (fun again test => counts.inv.open_while_closing (m := again) (by have := mem_stages member; rwa [test] at this))
      fun again => counts.key_at_push member
    have moved := total_set (w := releasing) (b := stage pc') (stages_at at_i)
    obtain ⟨each, balance⟩ := pushed
    refine ⟨?_, ?_⟩
    · rw [count_events, count_events, event, stages_moved]
      omega
    · rw [count_events, event, pops_thread]
      show u.unusedKeys + _ = _
      omega
  · exact pushed.outside h fun i ans is => threaded ⟨i, ans, is⟩

theorem Run.pushed (run : Run (slot cfg) (Bounded cfg) tr s) : Pushed tr s :=
  run.invariant (fun _ fresh => Pushed.init fresh) fun _ _ _ _ before pushed _ h => pushed.step (Run.counts before) h

/-- Along every run of a slot, its low 31 bits of `IoCount` count the references; initialising,
releasing and pushing the key come in turn; each release but one that is still going on has pushed the
key once, and nothing else brings the key back; the release part is entered by the holder of the last
reference, its `TryClosesocket` succeeds, and it pushes the slot's own key. -/
theorem released_once (run : Run (slot cfg) (Bounded cfg) tr s) :
    s.IoCount % 2 ^ 31 = references s ∧ due (events tr) = some (turn s) ∧
      (events tr).count .release = (events tr).count .push + total releasing (stages s) ∧
      s.unusedKeys + pops tr = 1 + (events tr).count .push ∧
      ∀ u i ans t, (u, .thread i ans) ∈ tr → u.threads[i]? = some t →
        (∀ again, t.pc = .decCas again → u.IoCount = 1 → references u = 1 ∧ held (stage t.pc) = 1) ∧
        (∀ again, t.pc = .releaseTest again → u.bDisconnected = false) ∧
        (∀ again, t.pc = .releasePush again → u.SessionListKey = cfg.key) := by
  have counts := Run.counts run
  have pushed := Run.pushed run
  refine ⟨by rw [← refs_core]; exact counts.inv.refs_eq, due_events run, pushed.each, pushed.keys, ?_⟩
  intro u i ans t taken at_i
  obtain ⟨_, _, before, -⟩ := run.mem taken
  have counts := Run.counts before
  have member := List.mem_of_getElem? at_i
  have stage_member := mem_stages member
  refine ⟨fun again cas one => ?_, fun again test => ?_, fun again => counts.key_at_push member⟩
  · rw [cas] at stage_member ⊢
    obtain ⟨all, rfl⟩ := counts.inv.sole_holder stage_member one
    exact ⟨by rw [← refs_core]; exact all, rfl⟩
  · rw [test] at stage_member
    exact counts.inv.open_while_closing stage_member

/-- A session whose first receive is reset at once, up to the return of the accept thread. -/
def resetSession : List Label := acceptRound 1 7 9 0 ++ .thread 0 .reset :: List.replicate 9 (Label.thread 0 .go)

theorem reset_session_released_once : ∃ tr s, tr.map Prod.snd = resetSession ∧
    s.IoCount = 2 ^ 31 ∧ references s = 0 ∧ (events tr).count .release = 1 ∧ (events tr).count .push = 1 ∧ s.unusedKeys = 1 := by
  have along : Along (slot plain) (Bounded plain) unusedSlot resetSession := by decide +kernel
  obtain ⟨s, reached, run⟩ := Run.along (.init unusedSlot_fresh) along
  rw [List.nil_append] at run
  obtain ⟨refs, -, each, keys, -⟩ := released_once run
  have facts : (exec (slot plain) unusedSlot resetSession).map (fun s =>
      (s.IoCount, total releasing (stages s), s.unusedKeys)) = some (2 ^ 31, 0, 1) := by decide +kernel
  rw [reached] at facts
  obtain ⟨count, parts⟩ := Prod.mk.inj (Option.some.inj facts)
  obtain ⟨none, free⟩ := Prod.mk.inj parts
  have popped : pops (trace (slot plain) unusedSlot resetSession) = 1 := by decide +kernel
  rw [none] at each
  rw [free, popped] at keys
  rw [count] at refs
  exact ⟨_, s, trace_labels reached, count, by omega, by omega, by omega, free⟩

end WanNet.Session
