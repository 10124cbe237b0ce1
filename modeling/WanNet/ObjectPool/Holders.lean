import WanNet.ObjectPool.FreeList

/-!
Who has which node of a pool: the free list, a caller of `Alloc`, or a call that is not over.
-/

namespace WanNet.ObjectPool
open Transition Treiber Threads

def Call.part : Call → Part
  | .idle => .idle
  | .allocating pc => pc.part
  | .freeing pc => pc.part

def Call.node (t : Call) : Option Nat := t.part.node

/-- `mSize` does not count the push of a `Free`, or counts the node that an `Alloc` has popped. -/
def Call.pushed : Call → Nat
  | .freeing pc => pc.uncounted
  | _ => 0

def Call.popped : Call → Nat
  | .allocating pc => pc.uncounted
  | _ => 0

/-- `mCapacity` counts a node that is not made yet. -/
def Call.creates : Call → Nat
  | .allocating .create => 1
  | _ => 0

def Heap.parts (s : Heap) : List Part := s.threads.map Call.part

/-- A CAS of `Alloc` that succeeds installs the top's current `Next`. -/
def Current (s : Heap) : Label → Prop
  | .thread i => match s.threads[i]? with
    | some (.allocating (.swapTop top following)) => s.pool.mTop = some top → s.pool.Next top.address = following
    | _ => True
  | _ => True

def Countable (s : Heap) : Label → Prop
  | .thread i => s.threads[i]? = some (.allocating .countCapacity) → s.pool.mCapacity + 1 < 2 ^ 32
  | _ => True

instance (s : Heap) (l : Label) : Decidable (Current s l) := by
  unfold Current
  split
  · split <;> infer_instance
  · infer_instance

instance (s : Heap) (l : Label) : Decidable (Countable s l) := by
  cases l <;> unfold Countable <;> infer_instance

variable {tag : Nat → Nat} {s s' : Heap} {i : Nat} {list : List Ptr} {pc : Alloc} {pf : Free} {t u : Call}

theorem step_alloc (at_i : s.threads[i]? = some (.allocating pc)) (h : Heap.step tag s (.thread i) = some s') :
    (∃ a, (alloc s.pool pc).2 = .done a ∧ s' = ⟨(alloc s.pool pc).1, a :: s.held, s.threads.set i .idle⟩) ∨
      (∀ a, (alloc s.pool pc).2 ≠ .done a) ∧
        s' = ⟨(alloc s.pool pc).1, s.held, s.threads.set i (.allocating (alloc s.pool pc).2)⟩ := by
  simp only [Heap.step, at_i] at h
  split at h
  next pool node is => exact .inl ⟨node, by rw [is], by rw [is]; exact (Option.some.inj h).symm⟩
  next pool pc' other is =>
    refine .inr ⟨fun a done => other a ?_, by rw [is]; exact (Option.some.inj h).symm⟩
    rw [is] at done
    exact done

theorem step_free (at_i : s.threads[i]? = some (.freeing pf)) (h : Heap.step tag s (.thread i) = some s') :
    s' = ⟨(free tag s.pool pf).1, s.held,
      s.threads.set i (if (free tag s.pool pf).2 = .done then .idle else .freeing (free tag s.pool pf).2)⟩ := by
  simp only [Heap.step, at_i] at h
  split at h
  next pool is =>
    rw [is]
    exact (Option.some.inj h).symm
  next pool pc' other is =>
    rw [is, if_neg other]
    exact (Option.some.inj h).symm

/-- Every node has one holder, and the counters follow. -/
structure Held (s : Heap) (list : List Ptr) : Prop where
  ordered : Ordered s.pool.mTop s.pool.Next s.parts list
  owned : ∀ a, owners list s.parts a + s.held.count a = made s.pool a
  size : (s.pool.mSize + total Call.pushed s.threads) % 2 ^ 32 = (list.length + total Call.popped s.threads) % 2 ^ 32
  capacity : s.pool.mCapacity = s.pool.created + total Call.creates s.threads
  words : s.pool.mSize < 2 ^ 32 ∧ s.pool.mCapacity < 2 ^ 32

theorem Held.one (held : Held s list) (a : Nat) : owners list s.parts a ≤ made s.pool a := by
  have := held.owned a
  omega

theorem parts_at (at_i : s.threads[i]? = some t) : s.parts[i]? = some t.part := by
  simp [Heap.parts, at_i]

/-- A step of a call, which may hand its node over as it ends. -/
theorem Held.step {part : Part} {up down : Nat} {list' : List Ptr} {pool : Pool} {held' : List Nat} (held : Held s list)
    (at_i : s.threads[i]? = some t) (steps : Steps s.pool pool s.parts list i part up down list')
    (node : ∀ a, holds a u.part + held'.count a = holds a part + s.held.count a)
    (written : ∀ new old, u.part = .linked new old → part = u.part)
    (size : u.pushed + down + t.popped = t.pushed + up + u.popped)
    (capacity : pool.mCapacity + s.pool.created + t.creates = s.pool.mCapacity + pool.created + u.creates)
    (words : pool.mSize < 2 ^ 32 ∧ pool.mCapacity < 2 ^ 32) : Held ⟨pool, held', s.threads.set i u⟩ list' := by
  have parts : (⟨pool, held', s.threads.set i u⟩ : Heap).parts = (s.parts.set i part).set i u.part := by
    rw [List.set_set]
    exact List.map_set
  have at_part : (s.parts.set i part)[i]? = some part :=
    List.getElem?_set_self (by simpa [Heap.parts] using (List.getElem?_eq_some_iff.mp at_i).1)
  refine ⟨?_, fun a => ?_, ?_, ?_, words⟩
  · rw [parts]
    refine ⟨steps.ordered.path, fun new old member => ?_⟩
    rcases List.mem_or_eq_of_mem_set member with old' | is
    · exact steps.ordered.written new old old'
    · refine steps.ordered.written new old (List.mem_of_getElem? (i := i) ?_)
      rw [at_part, written new old is.symm, is]
  · rw [parts]
    have moved := owners_set list' a at_part u.part
    have := steps.owned a
    have := held.owned a
    have := node a
    show _ + held'.count a = made pool a
    omega
  · have pushed := total_set (w := Call.pushed) (b := u) at_i
    have popped := total_set (w := Call.popped) (b := u) at_i
    have before := held.size
    have after := steps.size
    show (pool.mSize + total Call.pushed (s.threads.set i u)) % 2 ^ 32 = (list'.length + total Call.popped (s.threads.set i u)) % 2 ^ 32
    omega
  · have creates := total_set (w := Call.creates) (b := u) at_i
    have := held.capacity
    show pool.mCapacity = pool.created + total Call.creates (s.threads.set i u)
    omega

theorem alloc_counters (p : Pool) (room : pc = .countCapacity → p.mCapacity + 1 < 2 ^ 32)
    (words : p.mSize < 2 ^ 32 ∧ p.mCapacity < 2 ^ 32) :
    (alloc p pc).1.mCapacity + p.created + Call.creates (.allocating pc) =
        p.mCapacity + (alloc p pc).1.created + Call.creates (.allocating (alloc p pc).2) ∧
      (alloc p pc).1.mSize < 2 ^ 32 ∧ (alloc p pc).1.mCapacity < 2 ^ 32 := by
  cases pc with
  | countCapacity =>
    have counted : (alloc p .countCapacity).1.mCapacity = p.mCapacity + 1 := inc32_eq (room rfl)
    refine ⟨?_, words.1, inc32_lt _⟩
    rw [counted]
    show p.mCapacity + 1 + p.created + 0 = p.mCapacity + p.created + 1
    omega
  | create => exact ⟨rfl, words⟩
  | countSize node => exact ⟨rfl, dec32_lt _, words.2⟩
  | readTop =>
    simp only [alloc]
    split <;> exact ⟨rfl, words⟩
  | swapTop top following =>
    simp only [alloc]
    split <;> exact ⟨rfl, words⟩
  | readNext top => exact ⟨rfl, words⟩
  | done node => exact ⟨rfl, words⟩

theorem free_counters (tag : Nat → Nat) (pf : Free) (p : Pool) (words : p.mSize < 2 ^ 32 ∧ p.mCapacity < 2 ^ 32) :
    (free tag p pf).1.mCapacity = p.mCapacity ∧ (free tag p pf).1.created = p.created ∧
      (free tag p pf).1.mSize < 2 ^ 32 ∧ (free tag p pf).1.mCapacity < 2 ^ 32 := by
  cases pf with
  | countSize => exact ⟨rfl, rfl, inc32_lt _, words.2⟩
  | swapTop new top =>
    simp only [free]
    split <;> exact ⟨rfl, rfl, words⟩
  | takeID node => exact ⟨rfl, rfl, words⟩
  | readTop new => exact ⟨rfl, rfl, words⟩
  | writeNext new top => exact ⟨rfl, rfl, words⟩
  | done => exact ⟨rfl, rfl, words⟩

theorem Held.alloc (held : Held s list) (at_i : s.threads[i]? = some (.allocating pc)) (current : Current s (.thread i))
    (room : Countable s (.thread i)) (h : Heap.step tag s (.thread i) = some s') : ∃ list', Held s' list' := by
  have at_part : s.parts[i]? = some pc.part := parts_at at_i
  obtain ⟨list', steps, -⟩ := alloc_steps tag held.ordered held.one at_part
    (by rintro top following rfl; simpa only [Current, at_i] using current)
  have few : pc = .countCapacity → s.pool.mCapacity + 1 < 2 ^ 32 := by
    rintro rfl
    exact room at_i
  obtain ⟨capacity, words⟩ := alloc_counters s.pool few held.words
  refine ⟨list', ?_⟩
  rcases step_alloc at_i h with ⟨a, is, rfl⟩ | ⟨-, rfl⟩
  · rw [is] at steps capacity
    refine held.step at_i steps (fun b => ?_) nofun ?_ capacity words
    · have : holds b (Alloc.part (.done a)) = if a = b then 1 else 0 := by simp [holds, Alloc.part, Part.node]
      have : holds b Part.idle = 0 := rfl
      have := List.count_cons (a := b) (b := a) (l := s.held)
      simp only [beq_iff_eq] at this
      show holds b Part.idle + (a :: s.held).count b = _
      omega
    · show 0 + 0 + pc.uncounted = 0 + pc.uncounted + 0
      omega
  · refine held.step at_i steps (fun b => rfl) (fun _ _ _ => rfl) ?_ capacity words
    show 0 + (ObjectPool.alloc s.pool pc).2.uncounted + pc.uncounted = 0 + pc.uncounted + (ObjectPool.alloc s.pool pc).2.uncounted
    omega

theorem Held.free (held : Held s list) (at_i : s.threads[i]? = some (.freeing pf))
    (h : Heap.step tag s (.thread i) = some s') : ∃ list', Held s' list' := by
  have at_part : s.parts[i]? = some pf.part := parts_at at_i
  obtain ⟨list', steps, -⟩ := free_steps tag held.ordered held.one at_part
  obtain ⟨capacity, created, words⟩ := free_counters tag pf s.pool held.words
  refine ⟨list', ?_⟩
  rw [step_free at_i h]
  refine held.step at_i steps (fun b => ?_) (fun new old is => ?_) ?_ ?_ words
  · split
    next ends => rw [ends]; rfl
    next => rfl
  · split at is
    next => cases is
    next running => rw [if_neg running]; rfl
  · split
    next ends =>
      rw [ends]
      show 0 + pf.uncounted + 0 = pf.uncounted + 0 + 0
      omega
    next =>
      show _ + pf.uncounted + 0 = pf.uncounted + _ + 0
      exact Nat.add_right_cancel_iff.mpr (Nat.add_comm _ _)
  · have none : Call.creates (if (ObjectPool.free tag s.pool pf).2 = .done then .idle else .freeing (ObjectPool.free tag s.pool pf).2) = 0 := by
      split <;> rfl
    rw [none, capacity, created]
    rfl

theorem Held.begin {held' : List Nat} (held : Held s list)
    (node : ∀ a, holds a t.part + held'.count a = s.held.count a) (new : t.part.new = none)
    (quiet : t.pushed = 0 ∧ t.popped = 0 ∧ t.creates = 0) : Held ⟨s.pool, held', s.threads ++ [t]⟩ list := by
  obtain ⟨pushed, popped, creates⟩ := quiet
  have parts : (⟨s.pool, held', s.threads ++ [t]⟩ : Heap).parts = s.parts ++ [t.part] := by simp [Heap.parts]
  refine ⟨⟨held.ordered.path, fun new' old member => ?_⟩, fun a => ?_, ?_, ?_, held.words⟩
  · rw [parts] at member
    rcases List.mem_append.mp member with old' | is
    · exact held.ordered.written new' old old'
    · rw [← List.mem_singleton.mp is] at new
      cases new
  · rw [parts]
    have := held.owned a
    have := node a
    unfold owners at *
    rw [total_append_one]
    show _ + held'.count a = made s.pool a
    omega
  · rw [total_append_one, total_append_one, pushed, popped]
    exact held.size
  · rw [total_append_one, creates]
    exact held.capacity

theorem run_held (run : Run (heap tag) (fun s l => Current s l ∧ Countable s l) tr s) : ∃ list, Held s list := by
  refine run.invariant_state (I := fun s => ∃ list, Held s list) (fun s start => ⟨[], ?_⟩) ?_
  · obtain rfl : s = {} := start
    exact ⟨⟨rfl, nofun⟩, fun _ => rfl, rfl, rfl, by decide⟩
  rintro s l s' ⟨list, held⟩ ⟨current, room⟩ h
  have h : Heap.step tag s l = some s' := h
  cases l with
  | alloc =>
    obtain rfl := Option.some.inj h
    exact ⟨list, held.begin (fun a => Nat.zero_add _) rfl ⟨rfl, rfl, rfl⟩⟩
  | free node =>
    simp only [Heap.step] at h
    split at h
    next has =>
      obtain rfl := Option.some.inj h
      refine ⟨list, held.begin (fun a => ?_) rfl ⟨rfl, rfl, rfl⟩⟩
      have : holds a (Free.part (.takeID node)) = if node = a then 1 else 0 := by simp [holds, Free.part, Part.node]
      have erased := List.count_erase (a := a) (b := node) (l := s.held)
      have := List.count_pos_iff.mpr has
      simp only [beq_iff_eq] at erased
      show holds a (Free.part (.takeID node)) + _ = _
      split at erased
      next same =>
        obtain rfl := same
        rw [if_pos rfl] at *
        omega
      next other =>
        rw [if_neg other] at *
        omega
    next => cases h
  | thread i =>
    cases at_i : s.threads[i]? with
    | none => simp [Heap.step, at_i] at h
    | some t =>
      cases t with
      | idle => simp [Heap.step, at_i] at h
      | allocating pc => exact held.alloc at_i current room h
      | freeing pf => exact held.free at_i h

theorem count_nodes (s : Heap) (a : Nat) : (s.threads.filterMap Call.node).count a = total (holds a) s.parts := by
  unfold Heap.parts
  rw [total_map]
  induction s.threads with
  | nil => rfl
  | cons t threads ih =>
    have rest : total (fun t : Call => holds a t.part) (t :: threads) = holds a t.part + total (fun t : Call => holds a t.part) threads := by
      simp [total]
    rw [rest, ← ih]
    cases own : t.node with
    | none =>
      have : holds a t.part = 0 := by
        unfold holds
        rw [show t.part.node = none from own]
        rfl
      rw [List.filterMap_cons_none own, this, Nat.zero_add]
    | some b =>
      have : holds a t.part = if b = a then 1 else 0 := by simp [holds, show t.part.node = some b from own]
      rw [List.filterMap_cons_some own, List.count_cons, this, Nat.add_comm]
      simp

/-- The nodes on the free list, those handed out and those in the hands of a running call are all the
nodes, each once, and the counters are right whenever no call runs. -/
theorem nodes_have_one_holder (run : Run (heap idFlag) (fun s l => Current s l ∧ Countable s l) tr s) :
    ∃ list, Linked (fun ptr => s.pool.Next ptr.address) s.pool.mTop list ∧
      (list.map Ptr.address ++ s.held ++ s.threads.filterMap Call.node).Perm (List.range s.pool.created) ∧
      ((∀ t ∈ s.threads, t = .idle) → s.pool.mCapacity = s.pool.created ∧ s.pool.mSize = list.length ∧
        (s.pool.mCapacity = s.pool.mSize ↔ s.held = [])) := by
  obtain ⟨list, held⟩ := run_held run
  have every : (list.map Ptr.address ++ s.held ++ s.threads.filterMap Call.node).Perm (List.range s.pool.created) := by
    refine List.perm_iff_count.mpr fun a => ?_
    have owned := held.owned a
    unfold owners made at owned
    rw [List.count_append, List.count_append, count_nodes]
    by_cases old : a < s.pool.created
    · rw [if_pos old] at owned
      rw [List.nodup_range.count, if_pos (List.mem_range.mpr old)]
      omega
    · rw [if_neg old] at owned
      rw [List.count_eq_zero_of_not_mem fun member => old (List.mem_range.mp member)]
      omega
  refine ⟨list, held.ordered.path, every, fun quiet => ?_⟩
  have none {w : Call → Nat} (zero : w .idle = 0) : total w s.threads = 0 :=
    total_eq_zero.mpr fun t member => by rw [quiet t member, zero]
  have running : s.threads.filterMap Call.node = [] := List.filterMap_eq_nil_iff.mpr fun t member => by rw [quiet t member]; rfl
  have capacity := held.capacity
  have size := held.size
  have words := held.words
  have length := every.length_eq
  rw [none rfl] at capacity
  rw [none rfl, none rfl] at size
  simp only [running, List.append_nil, List.length_append, List.length_map, List.length_range] at length
  have counted : s.pool.mSize = list.length := by omega
  refine ⟨capacity, counted, fun same => List.length_eq_zero_iff.mp (by omega), fun empty => ?_⟩
  rw [empty] at length
  simp only [List.length_nil] at length
  omega

def begins (l : Label) (i n : Nat) : List Label := l :: List.replicate n (.thread i)

/-- Thread 4 stops before its CAS, while thread 5 takes the same node and thread 6 puts it back under a new ID: the
CAS fails, and thread 4 takes the node in its second round. -/
def reused : List Label :=
  [begins .alloc 0 3, begins .alloc 1 3, begins (.free 1) 2 5, begins (.free 0) 3 5, begins .alloc 4 2, begins .alloc 5 4,
    begins (.free 0) 6 5, List.replicate 5 (.thread 4)].flatten

theorem reused_node_has_one_holder : ∃ (tr : List (Heap × Label)) (s : Heap), tr.map Prod.snd = reused ∧
    Run (heap idFlag) (fun s l => Current s l ∧ Countable s l) tr s ∧
    s.pool.mCapacity = 2 ∧ s.pool.mSize = 1 ∧ s.held = [0] ∧ s.pool.mTop = some ⟨1, 1⟩ := by
  have along : Along (heap idFlag) (fun s l => Current s l ∧ Countable s l) {} reused := by decide +kernel
  obtain ⟨s, reached, run⟩ := Run.along (.init rfl) along
  have facts : (exec (heap idFlag) {} reused).map (fun s => (decide (∀ t ∈ s.threads, t = .idle), s.pool.created, s.held, s.pool.mTop)) =
      some (true, 2, [0], some ⟨1, 1⟩) := by decide +kernel
  rw [reached] at facts
  simp only [Option.map_some, Option.some.injEq, Prod.mk.injEq, decide_eq_true_eq] at facts
  obtain ⟨idle, created, held, top⟩ := facts
  obtain ⟨list, -, every, quiet⟩ := nodes_have_one_holder run
  obtain ⟨capacity, size, -⟩ := quiet idle
  have running : s.threads.filterMap Call.node = [] := List.filterMap_eq_nil_iff.mpr fun t member => by rw [idle t member]; rfl
  have length := every.length_eq
  simp only [running, held, created, List.append_nil, List.length_append, List.length_map, List.length_range,
    List.length_singleton] at length
  exact ⟨_, s, trace_labels reached, run, by omega, by omega, held, top⟩

/-! ### An ID that comes back -/

theorem free_alone (at_i : s.threads[i]? = some (.freeing (.takeID a))) :
    exec (heap tag) s (List.replicate 5 (.thread i)) = some ⟨{ s.pool with
      mID := s.pool.mID + 1, mTop := some ⟨a, tag (s.pool.mID + 1)⟩, mSize := inc32 s.pool.mSize
      Next := fun b => if b = a then s.pool.mTop else s.pool.Next b }, s.held, s.threads.set i .idle⟩ := by
  have lt := (List.getElem?_eq_some_iff.mp at_i).1
  simp only [List.replicate_succ, List.replicate_zero, exec, heap, Heap.step, at_i, free, Option.bind_some, List.set_set,
    List.getElem?_set_self lt, if_true]

theorem alloc_alone (at_i : s.threads[i]? = some (.allocating .readTop)) (top : s.pool.mTop = some ptr) :
    exec (heap tag) s (List.replicate 4 (.thread i)) = some ⟨{ s.pool with
      mTop := s.pool.Next ptr.address, mSize := dec32 s.pool.mSize }, ptr.address :: s.held, s.threads.set i .idle⟩ := by
  have lt := (List.getElem?_eq_some_iff.mp at_i).1
  simp only [List.replicate_succ, List.replicate_zero, exec, heap, Heap.step, at_i, alloc, top, Option.bind_some, List.set_set,
    List.getElem?_set_self lt, if_true]

/-- Node 0 and node 1 are handed out, and an `Alloc` that read them as top and next has not done its CAS. -/
structure Parked (s : Heap) (mID : Nat) : Prop where
  pool : s.pool.mTop = none ∧ s.pool.mID = mID ∧ s.pool.Next 1 = none
  held : s.held = [0, 1]
  stalled : s.threads[4]? = some (.allocating (.swapTop ⟨0, 2⟩ (some ⟨1, 1⟩)))

theorem Parked.frees (parked : Parked s mID) (run : Run (heap idFlag) Transition.Free tr s) :
    ∃ tr' s', Run (heap idFlag) Transition.Free tr' s' ∧ s'.pool.mTop = some ⟨0, idFlag (mID + 1)⟩ ∧ s'.pool.mID = mID + 1 ∧
      (s'.pool.Next 0 = none ∧ s'.pool.Next 1 = none) ∧ s'.held = [1] ∧
      s'.threads[4]? = some (.allocating (.swapTop ⟨0, 2⟩ (some ⟨1, 1⟩))) := by
  obtain ⟨⟨top, id, last⟩, held, stalled⟩ := parked
  have began : (heap idFlag).step s (.free 0) = some ⟨s.pool, [1], s.threads ++ [.freeing (.takeID 0)]⟩ := by
    simp [heap, Heap.step, held]
  have lt := (List.getElem?_eq_some_iff.mp stalled).1
  obtain ⟨more, -, run⟩ := Run.exec (run.step trivial began) (free_alone (i := s.threads.length) (a := 0) (by simp)) fun _ _ _ => trivial
  refine ⟨_, _, run, by simp [id], by simp [id], by simp [top, last], rfl, ?_⟩
  simp only [List.getElem?_set_ne (Nat.ne_of_gt lt), List.getElem?_append_left lt, stalled]

theorem Parked.cycle (parked : Parked s mID) (run : Run (heap idFlag) Transition.Free tr s) :
    ∃ tr' s', Run (heap idFlag) Transition.Free tr' s' ∧ Parked s' (mID + 1) := by
  obtain ⟨tr, u, run, top, id, ⟨next, last⟩, held, stalled⟩ := parked.frees run
  have lt := (List.getElem?_eq_some_iff.mp stalled).1
  have began : (heap idFlag).step u .alloc = some ⟨u.pool, u.held, u.threads ++ [.allocating .readTop]⟩ := rfl
  obtain ⟨more, -, run⟩ := Run.exec (run.step trivial began) (alloc_alone (i := u.threads.length) (by simp) top) fun _ _ _ => trivial
  refine ⟨_, _, run, ⟨next, id, last⟩, by simp [held], ?_⟩
  simp only [List.getElem?_set_ne (Nat.ne_of_gt lt), List.getElem?_append_left lt, stalled]

theorem Parked.cycles (parked : Parked s mID) (run : Run (heap idFlag) Transition.Free tr s) (n : Nat) :
    ∃ tr' s', Run (heap idFlag) Transition.Free tr' s' ∧ Parked s' (mID + n) := by
  induction n with
  | zero => exact ⟨tr, s, run, parked⟩
  | succ n ih =>
    obtain ⟨tr, u, run, parked⟩ := ih
    exact parked.cycle run

/-- Two nodes on the free list, an `Alloc` before its CAS, and both nodes handed out to others. -/
def stalledAlloc : List Label :=
  [begins .alloc 0 3, begins .alloc 1 3, begins (.free 1) 2 5, begins (.free 0) 3 5, begins .alloc 4 2, begins .alloc 5 4,
    begins .alloc 6 4, begins (.free 0) 7 5, begins .alloc 8 4].flatten

theorem stalledAlloc_parked : ∃ tr s, Run (heap idFlag) Transition.Free tr s ∧ Parked s 3 := by
  have along : Along (heap idFlag) Transition.Free {} stalledAlloc := by decide +kernel
  obtain ⟨s, reached, run⟩ := Run.along (.init rfl) along
  have facts : (exec (heap idFlag) {} stalledAlloc).map (fun s =>
      ((s.pool.mTop, s.pool.mID, s.pool.Next 1), s.held, s.threads[4]?)) =
      some ((none, 3, none), [0, 1], some (.allocating (.swapTop ⟨0, 2⟩ (some ⟨1, 1⟩)))) := by decide +kernel
  rw [reached] at facts
  simp only [Option.map_some, Option.some.injEq, Prod.mk.injEq] at facts
  exact ⟨_, s, run, facts.1, facts.2.1, facts.2.2⟩

/-- 2^16 calls of `Free` later the top has the ID that the stalled `Alloc` read, and its CAS puts a
node on the free list that a caller has. -/
theorem returning_id_lists_held_node : ∃ tr s, Run (heap idFlag) Transition.Free tr s ∧ ∃ a ∈ s.held, ∃ list,
    Linked (fun ptr => s.pool.Next ptr.address) s.pool.mTop list ∧ a ∈ list.map Ptr.address := by
  obtain ⟨tr, s, run, parked⟩ := stalledAlloc_parked
  obtain ⟨tr, s, run, parked⟩ := parked.cycles run (2 ^ 16 - 2)
  obtain ⟨tr, s, run, top, -, ⟨-, last⟩, held, stalled⟩ := parked.frees run
  have swapped : (heap idFlag).step s (.thread 4) = some ⟨{ s.pool with mTop := some ⟨1, 1⟩ }, s.held,
      s.threads.set 4 (.allocating (.countSize 0))⟩ := by
    have again : idFlag (3 + (2 ^ 16 - 2) + 1) = 2 := by decide
    rw [again] at top
    simp only [heap, Heap.step, stalled, alloc, top, if_true]
  refine ⟨_, _, run.step trivial swapped, 1, by simp [held], [⟨1, 1⟩], ⟨rfl, last⟩, by simp⟩

end WanNet.ObjectPool
