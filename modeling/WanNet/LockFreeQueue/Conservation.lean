import WanNet.LockFreeQueue.Values

/-!
`LockFreeQueue` loses and duplicates nothing.
-/

namespace WanNet.LockFreeQueue
open Transition Treiber ObjectPool Threads Chains Concurrent

variable {α : Type} {s u : Queue α} {chain chain' after : List Ptr} {groups groups' : List (List Ptr)} {list : List Ptr}
  {tr : List (Queue α × Label α)} {l : Label α} {t : Thread α} {pc' : Pc α} {i : Nat} {r : Option (Ret α)}

structure Sound (s : Queue α) (chain : List Ptr) (groups : List (List Ptr)) : Prop where
  memory : ∃ list, Memory s (chain :: groups) list
  pointers : ∃ left, Pointers s chain groups left
  values : Values s chain groups
  returns : Returns s
  runs : ∀ t ∈ s.threads, t.op.runs t.pc = true

theorem Values.step (values : Values s chain groups) (mem : Memory s (chain :: groups) list) (at_i : s.threads[i]? = some t)
    (moved : Moves s i t.op t.pc u pc' r) (effect : Effect s i t.pc pc' chain groups chain' groups') :
    Values (s.moved u i t.op pc') chain' groups' := by
  obtain ⟨op, pc⟩ := t
  cases effect with
  | none clears links takes =>
    cases moved with
    | writeData new data enqueue => exact values.writeData mem at_i rfl enqueue
    | writeNext new => exact absurd rfl (clears new)
    | link new tail free => exact absurd free (links new tail rfl)
    | swapHead first outData => exact absurd rfl (takes first outData)
    | _ => exact values.still at_i ⟨rfl, rfl, rfl⟩ (fun _ is => is) rfl
  | clear new here =>
    obtain rfl : pc = .writeNext new := here
    cases moved
    exact values.clear at_i rfl (mem.empty at_i rfl)
  | append new tail p g l here there at_g is same =>
    obtain rfl : pc = .link new tail := here
    subst there
    cases moved
    exact values.append at_i rfl at_g _ (by rw [is]; simp)
  | attach new tail p g l j here there at_g at_j other same =>
    obtain rfl : pc = .link new tail := here
    subst there
    cases moved
    exact values.attach at_i rfl at_g at_j other _
  | take first rest outData here there is data =>
    obtain rfl : pc = .swapHead s.mHead first outData := here
    subst there is
    cases moved
    exact values.take at_i rfl

theorem Returns.step (returns : Returns s) (values : Values s chain groups) (at_i : s.threads[i]? = some t)
    (moved : Moves s i t.op t.pc u pc' r) (effect : Effect s i t.pc pc' chain groups chain' groups') :
    Returns (s.acted u i t.op pc' r) := by
  obtain ⟨op, pc⟩ := t
  cases moved with
  | swapHead first outData =>
    cases effect with
    | none _ _ takes => exact absurd rfl (takes first outData)
    | take _ rest _ here there is data =>
      cases here
      subst is data
      exact returns.take at_i rfl (values.written _ (.head _) first (.head _))
    | clear _ here | append _ _ _ _ _ here | attach _ _ _ _ _ _ here => cases here
  | _ => exact returns.still at_i rfl (fun data => by simp [Pc.holding]) (by simp [Pc.untaken])

theorem runs_called (runs : ∀ t ∈ s.threads, t.op.runs t.pc = true) (op : Op α) : ∀ t ∈ (s.called op).threads, t.op.runs t.pc = true := by
  intro t member
  rcases List.mem_append.mp member with old | new
  · exact runs t old
  · rw [List.mem_singleton.mp new]
    exact op.runs_begin

theorem runs_acted (runs : ∀ t ∈ s.threads, t.op.runs t.pc = true) (at_i : s.threads[i]? = some t)
    (moved : Moves s i t.op t.pc u pc' r) : ∀ x ∈ (s.acted u i t.op pc' r).threads, x.op.runs x.pc = true := by
  intro x member
  rcases mem_set_at member with rfl | ⟨j, -, at_j⟩
  · exact moved.runs (runs t (List.mem_of_getElem? at_i))
  · exact runs x (List.mem_of_getElem? at_j)

theorem Sound.step (sound : Sound s chain groups) (h : step s l = some u) : ∃ chain' groups', Sound u chain' groups' := by
  obtain ⟨⟨list, mem⟩, ⟨left, pointers⟩, values, returns, runs⟩ := sound
  cases l with
  | call op =>
    cases h
    have mem' : Memory (s.called op) (chain :: (groups ++ [[]])) list := mem.call op
    exact ⟨chain, groups ++ [[]], ⟨list, mem'⟩, ⟨left, pointers.call mem op⟩, values.call op, returns.call op, runs_called runs op⟩
  | thread i =>
    obtain ⟨t, v, pc', r, at_i, moved, rfl⟩ := step_thread h
    obtain ⟨chain', groups', list', left', mem', pointers', effect⟩ := pointers.step mem at_i moved
    have values' := values.step mem at_i moved effect
    exact ⟨chain', groups', ⟨list', mem'.recorded _⟩, ⟨left', pointers'.recorded _⟩, ⟨values'.fresh, values'.written, values'.once⟩,
      returns.step values at_i moved effect, runs_acted runs at_i moved⟩

theorem run_sound (run : Run (queue α) Free tr s) : ∃ chain groups, Sound s chain groups := by
  refine run.invariant_state (I := fun s => ∃ chain groups, Sound s chain groups) (fun s start => ?_) fun s l u sound _ h => ?_
  · obtain ⟨data, rfl⟩ := start
    exact ⟨_, _, ⟨[], Memory.init data⟩, ⟨fun _ => 0, Pointers.init data⟩, Values.init data, Returns.init data, List.forall_mem_nil _⟩
  · obtain ⟨chain, groups, sound⟩ := sound
    exact sound.step h

def Op.value : Op α → Option α
  | .enqueue data => some data
  | .tryDequeue => none

def Queue.enqueued (s : Queue α) : List (Nat × α) :=
  (List.range s.threads.length).filterMap fun j => (s.threads[j]?).bind fun t => t.op.value.map fun data => (j, data)

/-- The `Enqueue` calls whose values are not dequeued. -/
def Queue.remaining (s : Queue α) : List (Nat × α) := s.enqueued.filter fun x => x.1 ∉ s.taken.map Prod.snd

def Queue.Idle (s : Queue α) : Prop := ∀ t ∈ s.threads, ∀ data, t.op = .enqueue data → t.pc = .finished

theorem mem_enqueued {j : Nat} {data : α} : (j, data) ∈ s.enqueued ↔ s.Supplies j data := by
  have value (op : Op α) : op.value = some data ↔ op = .enqueue data := by cases op <;> simp [Op.value]
  unfold Queue.enqueued Queue.Supplies
  rw [List.mem_filterMap, Option.map_eq_some_iff]
  constructor
  · rintro ⟨k, -, is⟩
    obtain ⟨t, at_k, is⟩ := Option.bind_eq_some_iff.mp is
    obtain ⟨d, is, same⟩ := Option.map_eq_some_iff.mp is
    cases same
    exact ⟨t, at_k, (value t.op).mp is⟩
  · rintro ⟨t, at_j, is⟩
    have lt := (List.getElem?_eq_some_iff.mp at_j).1
    refine ⟨j, List.mem_range.mpr lt, ?_⟩
    rw [at_j, Option.bind_some, (value t.op).mpr is, Option.map_some]

theorem enqueued_nodup (s : Queue α) : s.enqueued.Nodup := by
  refine List.nodup_range.filterMap fun i j x hi hj => ?_
  obtain ⟨t, -, is⟩ := Option.bind_eq_some_iff.mp hi
  obtain ⟨t', -, is'⟩ := Option.bind_eq_some_iff.mp hj
  obtain ⟨d, -, rfl⟩ := Option.map_eq_some_iff.mp is
  obtain ⟨d', -, same⟩ := Option.map_eq_some_iff.mp is'
  exact (Prod.mk.inj same).1.symm

theorem enqueuing_of_linking {pc : Pc α} {new : Ptr} (linking : pc.linking = some new) : pc.enqueuing = true := by
  cases pc with
  | readTail | link | readTailNext | helpTail => rfl
  | _ => cases linking

theorem Sound.no_groups (sound : Sound s chain groups) (idle : s.Idle) : ∀ path ∈ groups, path = [] := by
  obtain ⟨list, mem⟩ := sound.memory
  intro path member
  obtain ⟨i, at_i⟩ := List.mem_iff_getElem?.mp member
  obtain ⟨t, at_t, front⟩ := mem.leader at_i
  cases linking : t.pc.linking with
  | none => exact List.head?_eq_none_iff.mp (front.symm.trans linking)
  | some new =>
    have inside := enqueuing_of_linking linking
    obtain ⟨data, op⟩ := enqueue_of_runs (sound.runs t (List.mem_of_getElem? at_t)) inside
    rw [idle t (List.mem_of_getElem? at_t) data op] at inside
    cases inside

theorem Op.enqueues_le (op : Op α) : op.enqueues ≤ 1 := by cases op <;> simp [Op.enqueues]

theorem Values.once_le (values : Values s chain groups) (j : Nat) :
    (s.taken.map Prod.snd).count j + tally s.source j (chain.tail :: groups) ≤ 1 := by
  have once := values.once j
  cases at_j : s.threads[j]? with
  | none =>
    rw [at_j] at once
    simp only [Option.elim_none] at once
    omega
  | some t =>
    rw [at_j] at once
    simp only [Option.elim_some] at once
    have := t.op.enqueues_le
    omega

/-- While no `Enqueue` is in progress, the nodes behind `mHead` have the values that are not dequeued. -/
theorem Sound.remaining (sound : Sound s (s.mHead :: after) groups) (idle : s.Idle) :
    (after.map fun ptr => (s.writer ptr.address, s.Data ptr.address)).Perm s.remaining := by
  have none := sound.no_groups idle
  have listed (j : Nat) (on : ∃ ptr ∈ after, s.source ptr = j) : (s.taken.map Prod.snd).count j = 0 := by
    obtain ⟨ptr, member, rfl⟩ := on
    have := sound.values.once_le (s.source ptr)
    have := tally_of_mem_head s.source groups member
    rw [List.tail_cons] at *
    omega
  have nodup : (after.map fun ptr => (s.writer ptr.address, s.Data ptr.address)).Nodup := by
    refine List.Nodup.of_map Prod.fst (List.nodup_iff_count_le_one.mpr fun j => ?_)
    have := sound.values.once_le j
    rw [List.tail_cons, tally_cons] at this
    rw [List.map_map]
    show (after.map s.source).count j ≤ 1
    omega
  refine (List.perm_ext_iff_of_nodup nodup ((enqueued_nodup s).filter _)).mpr ?_
  rintro ⟨j, data⟩
  rw [List.mem_map, List.mem_filter, mem_enqueued]
  simp only [decide_eq_true_eq]
  constructor
  · rintro ⟨ptr, member, is⟩
    obtain ⟨rfl, rfl⟩ := Prod.mk.inj is
    exact ⟨sound.values.written _ (.head _) ptr member, List.count_eq_zero.mp (listed _ ⟨ptr, member, rfl⟩)⟩
  · rintro ⟨supplies, untaken⟩
    obtain ⟨t, at_j, op⟩ := Option.map_eq_some_iff.mp supplies
    have once := sound.values.once j
    rw [at_j, List.count_eq_zero.mpr untaken] at once
    simp only [Option.elim_some, op, idle t (List.mem_of_getElem? at_j) data op] at once
    have pos : 0 < tally s.source j (after :: groups) := Nat.lt_of_lt_of_eq Nat.zero_lt_one (once.symm.trans (Nat.zero_add _))
    obtain ⟨path, member, ptr, on, rfl⟩ := exists_of_tally pos
    rcases List.mem_cons.mp member with rfl | other
    · have written : s.Supplies (s.source ptr) (s.Data ptr.address) := sound.values.written _ (.head _) ptr on
      have same := written.symm.trans supplies
      exact ⟨ptr, on, Prod.ext rfl (Op.enqueue.inj (Option.some.inj same))⟩
    · rw [none path other] at on
      cases on

/-- Each value that a `TryDequeue` returns was supplied by an `Enqueue`, and no two return that of one; while no
`Enqueue` is in progress, the nodes behind `mHead` have the values that are not dequeued, each once. -/
theorem nothing_lost_or_duplicated (run : Run (queue α) Free tr s) : ∃ after,
    Linked (fun ptr => s.Next ptr.address) (some s.mHead) (s.mHead :: after) ∧ (∃ ptr ∈ s.mHead :: after, s.mTail = some ptr) ∧
    (∀ i data, .response i (.dequeued data) ∈ s.history → ∃ j, (i, j) ∈ s.taken ∧ (j, data) ∈ s.enqueued) ∧
    (∀ x ∈ s.taken, ∃ data, (x.2, data) ∈ s.enqueued ∧
      ((∃ t, s.threads[x.1]? = some t ∧ t.pc ≠ .finished) ∨ .response x.1 (.dequeued data) ∈ s.history)) ∧
    (s.taken.map Prod.fst).Nodup ∧ (s.taken.map Prod.snd).Nodup ∧
    (s.Idle → (after.map fun ptr => (s.writer ptr.address, s.Data ptr.address)).Perm s.remaining) := by
  obtain ⟨chain, groups, sound⟩ := run_sound run
  obtain ⟨list, mem⟩ := sound.memory
  obtain ⟨left, pointers⟩ := sound.pointers
  obtain ⟨after, rfl⟩ := mem.first
  refine ⟨after, mem.chained _ (.head _), pointers.tail, fun i data member => ?_, fun x member => ?_, ?_, ?_, sound.remaining⟩
  · obtain ⟨j, took, supplies⟩ := sound.returns.took i data (.inr member)
    exact ⟨j, took, mem_enqueued.mpr supplies⟩
  · obtain ⟨data, supplies, dequeued⟩ := sound.returns.kept x member
    refine ⟨data, mem_enqueued.mpr supplies, dequeued.imp_left fun holds => ?_⟩
    obtain ⟨t, at_x, holds⟩ := holds
    refine ⟨t, at_x, fun finished => ?_⟩
    rw [finished] at holds
    cases holds
  · refine List.nodup_iff_count_le_one.mpr fun i => ?_
    have := sound.returns.one i
    omega
  · refine List.nodup_iff_count_le_one.mpr fun j => ?_
    have := sound.values.once_le j
    omega

/-- An `Enqueue` stalls with an old tail, and links its node behind the same node in its next life, which is not linked itself. -/
theorem stalled_enqueue_keeps_its_value : ∃ tr s, Run (queue Nat) Free tr s ∧ s.taken = [(2, 1)] ∧ s.mHead = ⟨2, 2⟩ ∧
    ∃ after, Linked (fun ptr => s.Next ptr.address) (some s.mHead) (s.mHead :: after) ∧
      (after.map fun ptr => (s.writer ptr.address, s.Data ptr.address)).Perm [(0, 5), (3, 9)] := by
  have along : Along (queue Nat) Free { Data := fun _ => 0 } [begins (.enqueue 5) 0 7, begins (.enqueue 7) 1 10, begins .tryDequeue 2 12,
      begins (.enqueue 9) 3 7, List.replicate 3 (.thread 0), List.replicate 4 (.thread 3)].flatten := by decide +kernel
  obtain ⟨s, reached, run⟩ := Run.along (S := queue Nat) (.init ⟨fun _ => 0, rfl⟩) along
  have facts : (exec (queue Nat) { Data := fun _ => 0 } [begins (.enqueue 5) 0 7, begins (.enqueue 7) 1 10, begins .tryDequeue 2 12,
      begins (.enqueue 9) 3 7, List.replicate 3 (.thread 0), List.replicate 4 (.thread 3)].flatten).map
      (fun s => (s.mHead, s.taken, s.remaining, s.threads.map Thread.pc)) =
      some (⟨2, 2⟩, [(2, 1)], [(0, 5), (3, 9)], [.finished, .finished, .finished, .finished]) := by decide +kernel
  rw [reached] at facts
  simp only [Option.map_some, Option.some.injEq, Prod.mk.injEq] at facts
  obtain ⟨head, taken, remaining, ended⟩ := facts
  have idle : s.Idle := fun t member _ _ => all_finished (n := 4) ended t member
  obtain ⟨after, path, -, -, -, -, -, values⟩ := nothing_lost_or_duplicated run
  refine ⟨_, s, run, taken, head, after, path, ?_⟩
  rw [← remaining]
  exact values idle

end WanNet.LockFreeQueue
