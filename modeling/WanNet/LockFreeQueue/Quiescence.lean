import WanNet.LockFreeQueue.Counting

/-!
A `LockFreeQueue` at rest: where `mTail` is, what `mCount` is, and whether `TryDequeue` returns.
-/

namespace WanNet.LockFreeQueue
open Transition Treiber ObjectPool Threads Chains Concurrent

variable {α : Type}

/-- A CAS on `Next` that succeeds finds `mTail` as its call read it. -/
def LinksAtTail (s : Queue α) : Label α → Prop
  | .thread i => ∀ t ∈ s.threads[i]?, ∀ localMyTail ∈ t.pc.target, s.Next localMyTail.address = none → s.mTail = some localMyTail
  | .call _ => True

instance (s : Queue α) (l : Label α) : Decidable (LinksAtTail s l) :=
  match l with
  | .thread i => inferInstanceAs (Decidable (∀ t ∈ s.threads[i]?, ∀ localMyTail ∈ t.pc.target, s.Next localMyTail.address = none →
      s.mTail = some localMyTail))
  | .call _ => .isTrue trivial

/-- `mTail` is the last node, or an `Enqueue` is about to move it there. -/
def Tailed (s : Queue α) (chain : List Ptr) : Prop :=
  ∃ l p, s.mTail = some p ∧ (chain = l ++ [p] ∨ ∃ q, chain = l ++ [p, q] ∧ ∃ t ∈ s.threads, t.pc = .swapTail q p)

variable {s u : Queue α} {chain chain' : List Ptr} {groups groups' : List (List Ptr)} {list : List Ptr} {left : Nat → Nat} {t : Thread α}
  {pc' : Pc α} {i : Nat} {r : Option (Ret α)} {p q : Ptr} {l : List Ptr} {tr : List (Queue α × Label α)}

theorem Tailed.still (tailed : Tailed s chain) (at_i : s.threads[i]? = some t) (mTail : u.mTail = s.mTail)
    (swaps : ∀ new tail, t.pc = .swapTail new tail → s.mTail ≠ some tail) : Tailed (s.moved u i t.op pc') chain := by
  obtain ⟨l, p, is, last⟩ := tailed
  refine ⟨l, p, mTail.trans is, last.imp_right fun ⟨q, behind, x, member, swap⟩ => ⟨q, behind, x, ?_, swap⟩⟩
  obtain ⟨j, at_j⟩ := List.mem_iff_getElem?.mp member
  by_cases here : j = i
  · subst here
    obtain rfl := Option.some.inj (at_j.symm.trans at_i)
    exact absurd is (swaps q p swap)
  · exact List.mem_of_getElem? ((List.getElem?_set_ne (Ne.symm here)).trans at_j)

theorem Memory.next_of_last (mem : Memory s (chain :: groups) list) (is : chain = l ++ [p]) : s.Next p.address = none := by
  subst is
  exact (mem.chained _ (.head _)).append.1

theorem Memory.next_of_two (mem : Memory s (chain :: groups) list) (is : chain = l ++ [p, q]) : s.Next p.address = some q := by
  subst is
  exact (mem.chained _ (.head _)).append.1

theorem Memory.same_node (mem : Memory s (chain :: groups) list) (on : p ∈ chain) (on' : q ∈ chain) (same : p.address = q.address) : p = q := by
  refine List.inj_on_of_nodup_map (List.nodup_iff_count_le_one.mpr fun a => ?_) on on' same
  have := (mem.one a).1
  rw [tally_cons] at this
  omega

/-- A CAS moves `mTail` to the node behind. -/
theorem Tailed.forward {following : Option Ptr} (tailed : Tailed s chain) (mem : Memory s (chain :: groups) list) (is : s.mTail = some p)
    (known : p ∈ chain → ∃ ptr, following = some ptr ∧ s.Next p.address = some ptr) (mTail : u.mTail = following) (op : Op α) (pc' : Pc α) :
    Tailed (s.moved u i op pc') chain := by
  obtain ⟨l, p', is', last⟩ := tailed
  obtain rfl : p = p' := Option.some.inj (is.symm.trans is')
  have on : p ∈ chain := by
    rcases last with rfl | ⟨q, rfl, -⟩ <;> simp
  obtain ⟨ptr, rfl, follows⟩ := known on
  rcases last with behind | ⟨q, behind, -⟩
  · rw [mem.next_of_last behind] at follows
    cases follows
  · obtain rfl : q = ptr := Option.some.inj ((mem.next_of_two behind).symm.trans follows)
    exact ⟨l ++ [p], q, mTail, .inl (by rw [behind, List.append_assoc]; rfl)⟩

theorem Tailed.drop (tailed : Tailed s (p :: chain)) (other : s.mTail ≠ some p) : Tailed s chain := by
  obtain ⟨l, p', is, last⟩ := tailed
  cases l with
  | nil =>
    have first : p = p' := by
      rcases last with behind | ⟨q, behind, -⟩
      · exact (List.cons.inj behind).1
      · exact (List.cons.inj behind).1
    exact absurd (first ▸ is) other
  | cons x l =>
    refine ⟨l, p', is, ?_⟩
    rcases last with behind | ⟨q, behind, swap⟩
    · exact .inl (List.cons.inj behind).2
    · exact .inr ⟨q, (List.cons.inj behind).2, swap⟩

theorem Tailed.step (tailed : Tailed s chain) (mem : Memory s (chain :: groups) list) (pointers : Pointers s chain groups left)
    (at_i : s.threads[i]? = some t) (moved : Moves s i t.op t.pc u pc' r) (plain : Plain s t.pc pc' chain chain')
    (timely : ∀ new tail, t.pc = .link new tail → s.Next tail.address = none → s.mTail = some tail) : Tailed (s.moved u i t.op pc') chain' := by
  have stands := pointers.stands i t at_i
  obtain ⟨op, pc⟩ := t
  cases plain with
  | append new tail p l here there is same =>
    obtain rfl : pc = .link new tail := here
    subst there
    cases moved with
    | link _ _ free =>
      have tail_is := timely new tail rfl free
      obtain ⟨ptr, on, at_tail⟩ := pointers.tail
      obtain rfl : tail = ptr := Option.some.inj (tail_is.symm.trans at_tail)
      obtain rfl : p = tail := mem.same_node (by rw [is]; simp) on same
      refine ⟨l, p, tail_is, .inr ⟨new, by rw [is, List.append_assoc]; rfl, ⟨op, .swapTail new p⟩, ?_, rfl⟩⟩
      exact List.mem_of_getElem? (List.getElem?_set_self (List.getElem?_eq_some_iff.mp at_i).1)
  | take first rest outData here there is data =>
    obtain rfl : pc = .swapHead s.mHead first outData := here
    have untailed := (stands.2 rfl).1
    subst there is
    cases moved
    exact Tailed.drop (tailed.still at_i rfl fun _ _ swap => by cases swap) untailed
  | none links takes =>
    cases moved with
    | helpTail new tail following =>
      by_cases is : s.mTail = some tail
      · exact tailed.forward mem is stands.2 (if_pos is) op _
      · exact tailed.still at_i (if_neg is) (fun _ _ swap => by cases swap)
    | swapTail new tail =>
      by_cases is : s.mTail = some tail
      · exact tailed.forward mem is (fun on => ⟨_, rfl, stands.2 on⟩) (if_pos is) op _
      · refine tailed.still at_i (if_neg is) (fun new' tail' swap => ?_)
        cases swap
        exact is
    | link new tail free => exact absurd free (links new tail rfl)
    | swapHead first outData => exact absurd rfl (takes first outData)
    | _ => exact tailed.still at_i rfl (fun _ _ swap => by cases swap)

def AtRest (s : Queue α) : Prop := ∀ t ∈ s.threads, t.pc = .finished

def Dequeues (s : Queue α) : Prop := ∃ n u data,
  exec (queue α) s (.call .tryDequeue :: List.replicate n (.thread s.threads.length)) = some u ∧
    .response s.threads.length (.dequeued data) ∈ u.history

/-- `mTail` is the last node, `mCount` their number, and if there is one behind `mHead`, `TryDequeue` returns it. -/
def Ready (s : Queue α) : Prop := ∃ after, Linked (fun ptr => s.Next ptr.address) (some s.mHead) (s.mHead :: after) ∧
  s.mTail = (s.mHead :: after).getLast? ∧ s.mCount = after.length ∧ (0 < s.mCount → Dequeues s)

theorem take_alone (at_i : s.threads[i]? = some ⟨.tryDequeue, .testCount⟩) (some_left : s.mCount ≠ 0)
    (apart : some s.mHead ≠ s.mTail) (follows : s.Next s.mHead.address = some p) :
    exec (queue α) s (List.replicate 6 (.thread i)) = some { s with
      mHead := p
      taken := s.taken ++ [(i, s.writer p.address)]
      threads := s.threads.set i ⟨.tryDequeue, .free (.takeID s.mHead.address) (s.Data p.address)⟩ } := by
  have lt := (List.getElem?_eq_some_iff.mp at_i).1
  simp only [List.replicate_succ, List.replicate_zero, exec, queue, step, next, at_i, some_left, apart, follows, Option.bind_some,
    Option.map_some, Option.map_none, Option.toList_none, List.append_nil, List.set_set, List.getElem?_set_self lt, if_true, if_false]

theorem free_alone {op : Op α} {a : Nat} {data : α} (at_i : s.threads[i]? = some ⟨op, .free (.takeID a) data⟩) :
    (exec (queue α) s (List.replicate 6 (.thread i))).map Queue.history = some (s.history ++ [.response i (.dequeued data)]) := by
  have lt := (List.getElem?_eq_some_iff.mp at_i).1
  simp only [List.replicate_succ, List.replicate_zero, exec, queue, step, next, ObjectPool.free, at_i, Option.bind_some,
    Option.map_some, Option.map_none, Option.toList_none, Option.toList_some, List.append_nil, List.set_set,
    List.getElem?_set_self lt, if_true]

theorem tryDequeue_alone (at_i : s.threads[i]? = some ⟨.tryDequeue, .testCount⟩) (some_left : s.mCount ≠ 0)
    (apart : some s.mHead ≠ s.mTail) (follows : s.Next s.mHead.address = some p) :
    (exec (queue α) s (List.replicate 12 (.thread i))).map Queue.history = some (s.history ++ [.response i (.dequeued (s.Data p.address))]) := by
  have lt := (List.getElem?_eq_some_iff.mp at_i).1
  rw [List.replicate_add 6 6, exec_append, take_alone at_i some_left apart follows]
  exact free_alone (List.getElem?_set_self lt)

theorem Tailed.call (tailed : Tailed s chain) (op : Op α) : Tailed (s.called op) chain := by
  obtain ⟨l, p, is, last⟩ := tailed
  exact ⟨l, p, is, last.imp_right fun ⟨q, behind, t, member, swap⟩ => ⟨q, behind, t, List.mem_append_left _ member, swap⟩⟩

/-- What the runs are under: the code does not check that `mTail` still is what `Enqueue` read. -/
def Timely (s : Queue α) (l : Label α) : Prop := OneDequeuer s l ∧ LinksAtTail s l ∧ CountFits s l

instance (s : Queue α) (l : Label α) : Decidable (Timely s l) := inferInstanceAs (Decidable (_ ∧ _ ∧ _))

theorem run_tailed (run : Run (queue α) Timely tr s) : ∃ chain groups, Orderly s chain groups ∧ Tailed s chain := by
  refine run.invariant_state (I := fun s => ∃ chain groups, Orderly s chain groups ∧ Tailed s chain) (fun s start => ?_) ?_
  · obtain ⟨data, rfl⟩ := start
    exact ⟨_, _, Orderly.init data, [], ⟨0, 0⟩, rfl, .inl rfl⟩
  rintro s l u ⟨chain, groups, orderly, tailed⟩ ⟨turn, links, fits⟩ h
  cases l with
  | call op =>
    cases h
    exact ⟨_, _, orderly.call op turn, tailed.call op⟩
  | thread i =>
    obtain ⟨t, v, pc', r, at_i, moved, rfl⟩ := step_thread h
    obtain ⟨list, mem⟩ := orderly.memory
    obtain ⟨left, pointers⟩ := orderly.pointers
    have timely (new tail : Ptr) (here : t.pc = .link new tail) (free : s.Next tail.address = none) : s.mTail = some tail :=
      links t at_i tail (by rw [here]; rfl) free
    have apart (new tail : Ptr) (here : t.pc = .link new tail) (free : s.Next tail.address = none) :
        ∀ g ∈ groups, ∀ p ∈ g, p.address ≠ tail.address := by
      obtain ⟨ptr, queued, is⟩ := pointers.tail
      obtain rfl : tail = ptr := Option.some.inj ((timely new tail here free).symm.trans is)
      exact mem.elsewhere queued
    obtain ⟨chain', groups', -, plain, orderly'⟩ := orderly.thread at_i moved apart (fits t at_i)
    obtain ⟨l, p, is, last⟩ := tailed.step mem pointers at_i moved plain timely
    exact ⟨chain', groups', orderly', l, p, is, last⟩

/-- While no call is in progress, `mTail` is the last node and `mCount` the number of nodes behind `mHead`, and a
`TryDequeue` that runs alone returns one. -/
theorem queue_at_rest_is_ready (run : Run (queue α) Timely tr s) (rest : AtRest s) : Ready s := by
  obtain ⟨chain, groups, orderly, l, p, is, last⟩ := run_tailed run
  obtain ⟨list, mem⟩ := orderly.memory
  obtain ⟨after, rfl⟩ := mem.first
  have path := mem.chained _ (.head _)
  have behind : s.mHead :: after = l ++ [p] := by
    rcases last with behind | ⟨q, -, t, member, swap⟩
    · exact behind
    · rw [rest t member] at swap
      cases swap
  have count : s.mCount = after.length := by
    have := orderly.counted.count
    have uncounted : total (fun t : Thread α => t.pc.uncounted) s.threads = 0 := total_eq_zero.mpr fun t member => by rw [rest t member]; rfl
    have undone : total (fun t : Thread α => t.pc.undone) s.threads = 0 := total_eq_zero.mpr fun t member => by rw [rest t member]; rfl
    rw [uncounted, undone, List.length_cons] at this
    omega
  refine ⟨after, path, by rw [is, behind, List.getLast?_concat], count, fun pos => ?_⟩
  cases after with
  | nil => exact absurd count (Nat.ne_of_gt pos)
  | cons first after =>
    have follows : s.Next s.mHead.address = some first := path.2.1
    have apart : some s.mHead ≠ s.mTail := by
      intro same
      obtain rfl : s.mHead = p := Option.some.inj (same.trans is)
      rw [mem.next_of_last behind] at follows
      cases follows
    have began : (queue α).step s (.call .tryDequeue) = some (s.called .tryDequeue) := rfl
    have returned := tryDequeue_alone (s := s.called .tryDequeue) (List.getElem?_concat_length ..) (Nat.ne_of_gt pos) apart follows
    obtain ⟨u, reached, history⟩ := Option.map_eq_some_iff.mp returned
    refine ⟨12, u, s.Data first.address, ?_, ?_⟩
    · rw [exec, began, Option.bind_some, reached]
    · rw [history]
      exact List.mem_append_right _ (.head _)

/-- Two values go in, one comes out. -/
theorem rested_queue_dequeues : ∃ tr s, Run (queue Nat) Timely tr s ∧ AtRest s ∧ s.mCount = 1 ∧ Dequeues s := by
  have along : Along (queue Nat) Timely { Data := fun _ => 0 }
      [begins (.enqueue 5) 0 10, begins (.enqueue 7) 1 10, begins .tryDequeue 2 12].flatten := by decide +kernel
  obtain ⟨s, reached, run⟩ := Run.along (S := queue Nat) (.init ⟨fun _ => 0, rfl⟩) along
  have facts : (exec (queue Nat) { Data := fun _ => 0 }
      [begins (.enqueue 5) 0 10, begins (.enqueue 7) 1 10, begins .tryDequeue 2 12].flatten).map
      (fun s => (s.mCount, s.threads.map Thread.pc)) = some (1, [.finished, .finished, .finished]) := by decide +kernel
  rw [reached] at facts
  simp only [Option.map_some, Option.some.injEq, Prod.mk.injEq] at facts
  obtain ⟨count, ended⟩ := facts
  have rest : AtRest s := all_finished (n := 3) ended
  obtain ⟨after, -, -, -, dequeues⟩ := queue_at_rest_is_ready run rest
  exact ⟨_, s, run, rest, count, dequeues (by rw [count]; exact Nat.zero_lt_one)⟩

/-- A `TryDequeue` that finds `mTail` at `mHead` and `mCount` not 0. -/
structure Spins (s : Queue α) (k : Nat) (history : List (Event (Op α) (Ret α))) : Prop where
  tail : s.mTail = some s.mHead
  count : s.mCount ≠ 0
  same : s.history = history
  turns : ∃ op pc, s.threads[k]? = some ⟨op, pc⟩ ∧
    (pc = .testCount ∨ pc = .readHead ∨ pc = .readTailToTake s.mHead ∨ pc = .readHeadNext s.mHead (some s.mHead) ∨ pc = .retestCount)

theorem Spins.step {k : Nat} {history : List (Event (Op α) (Ret α))} (spins : Spins s k history) (h : step s (.thread k) = some u) :
    Spins u k history := by
  obtain ⟨tail, count, same, op, pc, at_k, turns⟩ := spins
  obtain ⟨t, v, pc', r, at_t, moved, rfl⟩ := step_thread h
  obtain rfl := Option.some.inj (at_k.symm.trans at_t)
  have lt := (List.getElem?_eq_some_iff.mp at_k).1
  have on (turns : pc' = .testCount ∨ pc' = .readHead ∨ pc' = .readTailToTake s.mHead ∨ pc' = .readHeadNext s.mHead (some s.mHead) ∨
      pc' = .retestCount) : Spins (s.acted s k op pc' none) k history :=
    ⟨tail, count, by simpa using same, op, pc', List.getElem?_set_self lt, turns⟩
  rcases turns with rfl | rfl | rfl | rfl | rfl
  · cases moved with
    | testEmpty zero => exact absurd zero count
    | testCount => exact on (by simp)
  · cases moved
    exact on (by simp)
  · cases moved
    exact on (by simp [tail])
  · cases moved with
    | headIsTail => exact on (by simp)
    | headIsLast _ _ other | readHeadNext _ _ _ other => exact absurd rfl other
  · cases moved with
    | retestEmpty zero => exact absurd zero count
    | retestCount => exact on (by simp)

theorem Spins.exec {k : Nat} {history : List (Event (Op α) (Ret α))} (spins : Spins s k history) (n : Nat)
    (h : exec (queue α) s (List.replicate n (.thread k)) = some u) : u.history = history := by
  induction n generalizing s with
  | zero =>
    obtain rfl := Option.some.inj h
    exact spins.same
  | succ n ih =>
    obtain ⟨v, moved, h⟩ := Option.bind_eq_some_iff.mp h
    exact ih (spins.step moved) h

/-- An `Enqueue` stalls with an old tail and links its node behind the same node in its next life: `mTail` stays one node
behind, and `TryDequeue` never returns. -/
theorem late_link_leaves_tail_behind : ∃ tr s, Run (queue Nat) OneDequeuer tr s ∧ AtRest s ∧ s.mCount = 1 ∧ ¬ Dequeues s ∧ ¬ Ready s := by
  have along : Along (queue Nat) OneDequeuer { Data := fun _ => 0 } [begins (.enqueue 5) 0 7, begins (.enqueue 7) 1 10,
      begins .tryDequeue 2 12, begins (.enqueue 9) 3 11, List.replicate 3 (.thread 0), begins .tryDequeue 4 12].flatten := by decide +kernel
  obtain ⟨s, reached, run⟩ := Run.along (S := queue Nat) (.init ⟨fun _ => 0, rfl⟩) along
  have words : (exec (queue Nat) { Data := fun _ => 0 } [begins (.enqueue 5) 0 7, begins (.enqueue 7) 1 10,
      begins .tryDequeue 2 12, begins (.enqueue 9) 3 11, List.replicate 3 (.thread 0), begins .tryDequeue 4 12].flatten).map
      (fun s => (s.mHead, s.mTail, s.mCount)) = some (⟨0, 3⟩, some ⟨0, 3⟩, 1) := by decide +kernel
  have calls : (exec (queue Nat) { Data := fun _ => 0 } [begins (.enqueue 5) 0 7, begins (.enqueue 7) 1 10,
      begins .tryDequeue 2 12, begins (.enqueue 9) 3 11, List.replicate 3 (.thread 0), begins .tryDequeue 4 12].flatten).map
      (fun s => (s.threads.map Thread.pc, s.history)) = some ([.finished, .finished, .finished, .finished, .finished],
        [.invoke 0 (.enqueue 5), .invoke 1 (.enqueue 7), .response 1 .enqueued, .invoke 2 .tryDequeue, .response 2 (.dequeued 7),
          .invoke 3 (.enqueue 9), .response 3 .enqueued, .response 0 .enqueued, .invoke 4 .tryDequeue, .response 4 (.dequeued 9)]) := by
    decide +kernel
  rw [reached] at words calls
  simp only [Option.map_some, Option.some.injEq, Prod.mk.injEq] at words calls
  obtain ⟨head, tail, count⟩ := words
  obtain ⟨ended, history⟩ := calls
  have rest : AtRest s := all_finished (n := 5) ended
  have stuck : ¬ Dequeues s := by
    rintro ⟨n, u, data, solo, returned⟩
    obtain ⟨v, began, solo⟩ := Option.bind_eq_some_iff.mp solo
    obtain rfl : s.called .tryDequeue = v := Option.some.inj began
    have spins : Spins (s.called .tryDequeue) s.threads.length (s.history ++ [.invoke s.threads.length .tryDequeue]) := by
      refine ⟨tail.trans (congrArg some head.symm), ?_, rfl, _, _, List.getElem?_concat_length .., .inl rfl⟩
      show s.mCount ≠ 0
      rw [count]
      exact Nat.one_ne_zero
    have five : s.threads.length = 5 := by
      rw [← List.length_map (f := Thread.pc), ended]
      rfl
    rw [spins.exec n solo, history, five] at returned
    simp at returned
  refine ⟨_, s, run, rest, count, stuck, ?_⟩
  rintro ⟨-, -, -, -, dequeues⟩
  exact stuck (dequeues (by rw [count]; exact Nat.zero_lt_one))

end WanNet.LockFreeQueue
