import WanNet.LockFreeStack.Nodes

/-!
`LockFreeStack` is linearizable: a `Push` takes effect at its CAS, a `TryPop` at its CAS or at the read
of an empty `mTop`.
-/

namespace WanNet.LockFreeStack
open Transition Treiber ObjectPool Threads Concurrent

variable {α : Type}

/-- Where the `i`-th call stands with the sequential execution. -/
def Stands (Data : Nat → α) (order : List (Entry (Op α) (Ret α))) (i : Nat) (op : Op α) : Pc α → Prop
  | .alloc _ | .writeData _ => (∃ data, op = .push data) ∧ i ∉ order.map Entry.id
  | .takeID newNode => op = .push (Data newNode) ∧ i ∉ order.map Entry.id
  | .readTop newTop | .writeNext newTop _ | .swapTop newTop _ => op = .push (Data newTop.address) ∧ i ∉ order.map Entry.id
  | .count => ⟨i, op, .pushed⟩ ∈ order
  | .readTopToPop | .readNext _ | .swapTopToPop _ _ => op = .tryPop ∧ i ∉ order.map Entry.id
  | .uncount localMyPureTop | .readData localMyPureTop => ⟨i, op, .popped (Data localMyPureTop)⟩ ∈ order
  | .free _ outData => ⟨i, op, .popped outData⟩ ∈ order
  | .finished => True

def Stack.contents (s : Stack α) (nodes : List Ptr) : List α := nodes.map fun ptr => s.Data ptr.address

structure Linear (s : Stack α) (order : List (Entry (Op α) (Ret α))) (nodes : List Ptr) : Prop where
  explains : Explains (lifo α) s.history order (s.contents nodes)
  stands : ∀ i t, s.threads[i]? = some t → Stands s.Data order i t.op t.pc
  invoked : ∀ i t, s.threads[i]? = some t → .invoke i t.op ∈ s.history
  ids : ∀ i op, .invoke i op ∈ s.history → i < s.threads.length

variable {s u : Stack α} {order order' : List (Entry (Op α) (Ret α))} {nodes nodes' list : List Ptr} {t : Thread α} {pc' : Pc α}
  {r : Option (Ret α)} {i : Nat}

abbrev Stack.stepped (s u : Stack α) (i : Nat) (op : Op α) (pc : Pc α) (r : Option (Ret α)) : Stack α :=
  { u with threads := s.threads.set i ⟨op, pc⟩, history := s.history ++ (r.map (Event.response i)).toList }

/-- Steps of the other calls change neither the data of a call's own node nor what has become of it. -/
theorem Stands.frame {Data Data' : Nat → α} {op : Op α} {pc : Pc α} (stands : Stands Data order i op pc)
    (own : ∀ a, pc.part.node = some a → Data' a = Data a) (grows : ∀ e ∈ order, e ∈ order')
    (ids : i ∈ order'.map Entry.id → i ∈ order.map Entry.id) : Stands Data' order' i op pc := by
  cases pc with
  | alloc | writeData | readTopToPop | readNext | swapTopToPop => exact ⟨stands.1, fun member => stands.2 (ids member)⟩
  | takeID | readTop | writeNext | swapTop => exact ⟨by rw [own _ rfl]; exact stands.1, fun member => stands.2 (ids member)⟩
  | count | free => exact grows _ stands
  | uncount | readData =>
    show _ ∈ order'
    rw [own _ rfl]
    exact grows _ stands
  | finished => trivial

theorem Linear.move (lin : Linear s order nodes) (one : ∀ a, owners nodes s.parts a ≤ 1) (at_i : s.threads[i]? = some t)
    (others : ∀ a, t.pc.part.node ≠ some a → u.Data a = s.Data a)
    (explains : Explains (lifo α) (s.history ++ (r.map (Event.response i)).toList) order' (u.contents nodes'))
    (grows : ∀ e ∈ order, e ∈ order') (ids : ∀ j, j ∈ order'.map Entry.id → j ∈ order.map Entry.id ∨ j = i)
    (stands : Stands u.Data order' i t.op pc') : Linear (s.stepped u i t.op pc' r) order' nodes' := by
  have at_part : s.parts[i]? = some t.pc.part := (Memory.at_part at_i).1
  refine ⟨explains, fun j t' at_j => ?_, fun j t' at_j => ?_, fun j op member => ?_⟩
  · rcases at_set at_j with ⟨rfl, rfl⟩ | ⟨here, at_j⟩
    · exact stands
    · refine (lin.stands j t' at_j).frame (fun a own => others a fun same => ?_) grows fun member =>
        (ids j member).resolve_right here
      exact (apart (one a) at_part same).2 j _ here (Memory.at_part at_j).1 own
  · refine List.mem_append_left _ ?_
    rcases at_set at_j with ⟨rfl, rfl⟩ | ⟨here, at_j⟩
    · exact lin.invoked _ t at_i
    · exact lin.invoked j t' at_j
  · rw [List.length_set]
    rcases List.mem_append.mp member with old | last
    · exact lin.ids j op old
    · cases r with
      | none => cases last
      | some r => cases List.mem_singleton.mp last

theorem Linear.still (lin : Linear s order nodes) (one : ∀ a, owners nodes s.parts a ≤ 1) (at_i : s.threads[i]? = some t)
    (others : ∀ a, t.pc.part.node ≠ some a → u.Data a = s.Data a) (returns : ∀ ret, r = some ret → ⟨i, t.op, ret⟩ ∈ order)
    (stands : Stands u.Data order i t.op pc') : Linear (s.stepped u i t.op pc' r) order nodes := by
  refine lin.move one at_i others ?_ (fun _ => id) (fun _ => .inl) stands
  have same : u.contents nodes = s.contents nodes := List.map_congr_left fun ptr member => others _ fun own =>
    (apart (one _) (Memory.at_part at_i).1 own).1 ptr member rfl
  rw [same]
  cases r with
  | none => simpa using lin.explains
  | some ret => exact lin.explains.response (returns ret rfl)

theorem Linear.commit {ret : Ret α} (lin : Linear s order nodes) (one : ∀ a, owners nodes s.parts a ≤ 1)
    (at_i : s.threads[i]? = some t) (new : i ∉ order.map Entry.id) (data : u.Data = s.Data)
    (is : (lifo α).apply (s.contents nodes) t.op = (u.contents nodes', ret)) (returns : ∀ ret', r = some ret' → ret' = ret)
    (stands : Stands u.Data (order ++ [⟨i, t.op, ret⟩]) i t.op pc') :
    Linear (s.stepped u i t.op pc' r) (order ++ [⟨i, t.op, ret⟩]) nodes' := by
  refine lin.move one at_i (fun a _ => by rw [data]) ?_ (fun e => List.mem_append_left _) (fun j member => ?_) stands
  · have took := lin.explains.commit (lin.invoked i t at_i) new is
    cases r with
    | none => simpa using took
    | some ret' =>
      obtain rfl := returns ret' rfl
      exact took.response (List.mem_append_right _ (.head _))
  · rw [List.map_append] at member
    exact (List.mem_append.mp member).imp_right List.mem_singleton.mp

theorem Linear.step (lin : Linear s order nodes) (mem : Memory s nodes list) (at_i : s.threads[i]? = some t)
    (moved : Moves s t.op t.pc u pc' r) (effect : Effect s t.pc pc' nodes nodes') :
    ∃ order', Linear (s.stepped u i t.op pc' r) order' nodes' := by
  have one (a : Nat) : owners nodes s.parts a ≤ 1 := (mem.one a).1
  have stands := lin.stands i t at_i
  have last (ret : Ret α) : (⟨i, t.op, ret⟩ : Entry (Op α) (Ret α)) ∈ order ++ [⟨i, t.op, ret⟩] :=
    List.mem_append_right _ (.head _)
  obtain ⟨op, pc⟩ := t
  cases effect with
  | push new here there =>
    subst here there
    obtain ⟨rfl, new⟩ : op = .push (s.Data _) ∧ _ := stands
    cases moved
    exact ⟨_, lin.commit one at_i new rfl rfl (by simp) (last _)⟩
  | pop top following rest is here there =>
    subst is here there
    obtain ⟨rfl, new⟩ : op = .tryPop ∧ _ := stands
    cases moved
    exact ⟨_, lin.commit one at_i new rfl rfl (by simp) (last _)⟩
  | none quiet =>
    cases moved with
    | writeData node data is =>
      obtain ⟨-, new⟩ : (∃ data, op = .push data) ∧ _ := stands
      refine ⟨order, lin.still one at_i (fun a other => if_neg fun same => other ?_) (by simp) ⟨?_, new⟩⟩
      · rw [same]
        rfl
      · rw [is]
        exact congrArg Op.push (if_pos rfl).symm
    | swapTop new => exact absurd rfl (quiet.1 new)
    | swapTopToPop top following here => exact absurd here (quiet.2 top following rfl)
    | popsNone empty =>
      obtain ⟨rfl, new⟩ : op = .tryPop ∧ _ := stands
      obtain rfl : nodes = [] := by simpa [empty, eq_comm] using mem.ordered.path.head
      exact ⟨_, lin.commit one at_i new rfl rfl (fun _ is => (Option.some.inj is).symm) trivial⟩
    | count | freed =>
      refine ⟨order, lin.still one at_i (fun _ _ => rfl) (fun ret is => ?_) trivial⟩
      cases is
      exact stands
    | alloc | allocated | takeID | readTop | writeNext | swapTopFails | readTopToPop | readNext | swapTopToPopFails | uncount | readData
    | free => exact ⟨order, lin.still one at_i (fun _ _ => rfl) (by simp) stands⟩

/-! ### Calls and whole runs -/

theorem Op.begin_idle (op : Op α) : op.begin.part = .idle ∧ op.begin.poolPart = .idle ∧ op.begin.pushed = 0 ∧ op.begin.popped = 0 := by
  cases op <;> exact ⟨rfl, rfl, rfl, rfl⟩

abbrev Stack.called (s : Stack α) (op : Op α) : Stack α :=
  { s with threads := s.threads ++ [⟨op, op.begin⟩], history := s.history ++ [.invoke s.threads.length op] }

theorem Memory.call (mem : Memory s nodes list) (op : Op α) : Memory (s.called op) nodes list := by
  obtain ⟨part, poolPart, pushed, popped⟩ := op.begin_idle
  have parts : (s.called op).parts = s.parts ++ [.idle] := by simp [Stack.parts, part]
  have poolParts : (s.called op).poolParts = s.poolParts ++ [.idle] := by simp [Stack.poolParts, poolPart]
  refine ⟨?_, ?_, ?_, ?_, fun a => ?_, ?_, mem.word⟩
  · rw [parts]
    exact mem.ordered.enter
  · rw [parts]
    exact mem.tagged.enter
  · rw [poolParts]
    exact mem.pool.enter
  · rw [poolParts]
    exact mem.poolTagged.enter
  · rw [parts, poolParts, owners_idle, owners_idle]
    exact mem.owned a
  · rw [total_append_one, total_append_one, pushed, popped]
    exact mem.count

theorem Linear.call (lin : Linear s order nodes) (op : Op α) : Linear (s.called op) order nodes := by
  have fresh (op' : Op α) : .invoke s.threads.length op' ∉ s.history := fun member => Nat.lt_irrefl _ (lin.ids _ _ member)
  refine ⟨lin.explains.invoke fresh, fun i t at_i => ?_, fun i t at_i => ?_, fun i op' member => ?_⟩
  · rcases at_append_one at_i with old | ⟨rfl, rfl⟩
    · exact lin.stands i t old
    · have new : s.threads.length ∉ order.map Entry.id := fun member => by
        obtain ⟨e, listed, is⟩ := List.mem_map.mp member
        exact fresh e.op (is ▸ lin.explains.invoked e listed)
      cases op with
      | push data => exact ⟨⟨data, rfl⟩, new⟩
      | tryPop => exact ⟨rfl, new⟩
  · rcases at_append_one at_i with old | ⟨rfl, rfl⟩
    · exact List.mem_append_left _ (lin.invoked i t old)
    · exact List.mem_append_right _ (.head _)
  · rw [List.length_append, List.length_singleton]
    rcases List.mem_append.mp member with old | last
    · exact Nat.lt_succ_of_lt (lin.ids i op' old)
    · cases List.mem_singleton.mp last
      exact Nat.lt_succ_self _

theorem run_linear (run : Run (stack α) Transition.Free tr s) : ∃ order nodes list, Memory s nodes list ∧ Linear s order nodes := by
  refine run.invariant_state (I := fun s => ∃ order nodes list, Memory s nodes list ∧ Linear s order nodes) (fun s start => ?_) ?_
  · obtain ⟨data, rfl⟩ := start
    exact ⟨[], [], [], ⟨⟨rfl, nofun⟩, ⟨nofun, fun _ => ⟨Nat.zero_le _, nofun⟩, nofun, nofun⟩, ⟨rfl, nofun⟩,
      ⟨nofun, fun _ => ⟨Nat.zero_le _, nofun⟩, nofun, nofun⟩, fun _ => rfl, rfl, Nat.two_pow_pos 32⟩, ⟨.init, nofun, nofun, nofun⟩⟩
  rintro s l s' ⟨order, nodes, list, mem, lin⟩ - h
  cases l with
  | call op =>
    obtain rfl := Option.some.inj h
    exact ⟨order, nodes, list, mem.call op, lin.call op⟩
  | thread i =>
    obtain ⟨t, at_i, h⟩ := Option.bind_eq_some_iff.mp h
    obtain ⟨⟨u, pc', r⟩, moved, rfl⟩ := Option.map_eq_some_iff.mp h
    have moved := next_moves moved
    obtain ⟨nodes', list', mem', effect⟩ := mem.step at_i moved
    obtain ⟨order', lin'⟩ := lin.step mem at_i moved effect
    exact ⟨order', nodes', list', ⟨mem'.ordered, mem'.tagged, mem'.pool, mem'.poolTagged, mem'.owned, mem'.count, mem'.word⟩, lin'⟩

/-- There is a sequential execution that explains the history and leaves what the nodes from `mTop` hold,
and `mCount`, as far as 32 bits go, is their number whenever no call runs. -/
theorem pushes_and_pops_linearize (run : Run (stack α) Transition.Free tr s) :
    ∃ order nodes, Explains (lifo α) s.history order (s.contents nodes) ∧
      Linked (fun ptr => s.Next ptr.address) s.mTop nodes ∧ (nodes.map Ptr.address).Nodup ∧
      ((∀ t ∈ s.threads, t.pc = .finished) → s.mCount = nodes.length % 2 ^ 32) := by
  obtain ⟨order, nodes, list, mem, lin⟩ := run_linear run
  refine ⟨order, nodes, lin.explains, mem.ordered.path, List.nodup_iff_count_le_one.mpr fun a => ?_, fun quiet => ?_⟩
  · exact Nat.le_trans (Nat.le_add_right _ _) (mem.one a).1
  · have none {w : Thread α → Nat} (zero : ∀ op, w ⟨op, .finished⟩ = 0) : total w s.threads = 0 :=
      total_eq_zero.mpr fun t member => by
        obtain ⟨op, pc⟩ := t
        obtain rfl : pc = .finished := quiet _ member
        exact zero op
    have count := mem.count
    rw [none fun _ => rfl, none fun _ => rfl, Nat.add_zero, Nat.add_zero, Nat.mod_eq_of_lt mem.word] at count
    exact count

def begins (op : Op α) (i n : Nat) : List (Label α) := .call op :: List.replicate n (.thread i)

/-- Two nodes, one of them popped by a `TryPop` that read `mTop` before the second was pushed. -/
theorem overtaken_pop_linearizes : ∃ tr s, Run (stack Nat) Transition.Free tr s ∧ s.mCount = 1 ∧
    ∃ order, Explains (lifo Nat) s.history order [5] := by
  have along : Along (stack Nat) Transition.Free { Data := fun _ => 0 }
      [begins (.push 5) 0 9, begins .tryPop 1 1, begins (.push 7) 2 9, List.replicate 12 (.thread 1)].flatten := by decide +kernel
  obtain ⟨s, reached, run⟩ := Run.along (S := stack Nat) (.init ⟨fun _ => 0, rfl⟩) along
  have facts : (exec (stack Nat) { Data := fun _ => 0 } [begins (.push 5) 0 9, begins .tryPop 1 1, begins (.push 7) 2 9,
      List.replicate 12 (.thread 1)].flatten).map (fun s => (s.mTop, s.Next 0, s.Data 0, s.threads)) =
      some (some ⟨0, 1⟩, none, 5, [⟨.push 5, .finished⟩, ⟨.tryPop, .finished⟩, ⟨.push 7, .finished⟩]) := by decide +kernel
  rw [reached] at facts
  simp only [Option.map_some, Option.some.injEq, Prod.mk.injEq] at facts
  obtain ⟨top, last, data, threads⟩ := facts
  obtain ⟨order, nodes, explains, path, -, count⟩ := pushes_and_pops_linearize run
  have here : Linked (fun ptr => s.Next ptr.address) s.mTop [⟨0, 1⟩] := ⟨top, last⟩
  obtain rfl := path.unique here
  refine ⟨_, s, run, count (by simp [threads]), order, ?_⟩
  rw [← data]
  exact explains

/-! ### More nodes than `mCount` counts -/

/-- `Alloc` with no node to give back makes one. -/
theorem alloc_alone {i : Nat} {data : α} (at_i : s.threads[i]? = some ⟨.push data, .alloc .readTop⟩) (dry : s.mNodePool.mTop = none) :
    exec (stack α) s (List.replicate 3 (.thread i)) = some { s with
      mNodePool := { s.mNodePool with
        mCapacity := inc32 s.mNodePool.mCapacity
        Next := fun a => if a = s.mNodePool.created then none else s.mNodePool.Next a
        created := s.mNodePool.created + 1 }
      threads := s.threads.set i ⟨.push data, .writeData s.mNodePool.created⟩ } := by
  have lt := (List.getElem?_eq_some_iff.mp at_i).1
  simp only [List.replicate_succ, List.replicate_zero, exec, stack, step, next, ObjectPool.alloc, at_i, dry, Option.bind_some,
    Option.map_some, Option.map_none, Option.toList_none, List.append_nil, List.set_set, List.getElem?_set_self lt]

theorem link_alone {i newNode : Nat} {data : α} (at_i : s.threads[i]? = some ⟨.push data, .writeData newNode⟩) :
    exec (stack α) s (List.replicate 6 (.thread i)) = some { s with
      mTop := some ⟨newNode, s.mID + 1⟩
      mID := s.mID + 1
      mCount := inc32 s.mCount
      Next := fun a => if a = newNode then s.mTop else s.Next a
      Data := fun a => if a = newNode then data else s.Data a
      threads := s.threads.set i ⟨.push data, .finished⟩
      history := s.history ++ [.response i .pushed] } := by
  have lt := (List.getElem?_eq_some_iff.mp at_i).1
  simp only [List.replicate_succ, List.replicate_zero, exec, stack, step, next, at_i, Option.bind_some, Option.map_some,
    Option.map_none, Option.toList_none, Option.toList_some, List.append_nil, List.set_set, List.getElem?_set_self lt, if_true]

theorem push_alone {i : Nat} {data : α} (at_i : s.threads[i]? = some ⟨.push data, .alloc .readTop⟩) (dry : s.mNodePool.mTop = none) :
    exec (stack α) s (List.replicate 9 (.thread i)) = some { s with
      mTop := some ⟨s.mNodePool.created, s.mID + 1⟩
      mID := s.mID + 1
      mCount := inc32 s.mCount
      mNodePool := { s.mNodePool with
        mCapacity := inc32 s.mNodePool.mCapacity
        Next := fun a => if a = s.mNodePool.created then none else s.mNodePool.Next a
        created := s.mNodePool.created + 1 }
      Next := fun a => if a = s.mNodePool.created then s.mTop else s.Next a
      Data := fun a => if a = s.mNodePool.created then data else s.Data a
      threads := s.threads.set i ⟨.push data, .finished⟩
      history := s.history ++ [.response i .pushed] } := by
  have lt := (List.getElem?_eq_some_iff.mp at_i).1
  have steps : List.replicate 9 (Label.thread (α := α) i) = List.replicate 3 (.thread i) ++ List.replicate 6 (.thread i) :=
    List.replicate_add 3 6 _
  rw [steps, exec_append, alloc_alone at_i dry, Option.bind_some, link_alone (List.getElem?_set_self lt), List.set_set]

/-- `n` nodes on the stack, and no call in progress. -/
structure Filled (s : Stack α) (n : Nat) : Prop where
  quiet : ∀ t ∈ s.threads, t.pc = .finished
  dry : s.mNodePool.mTop = none
  word : s.mCount < 2 ^ 32
  nodes : ∃ nodes, Linked (fun ptr => s.Next ptr.address) s.mTop nodes ∧ nodes.length = n ∧ ∀ ptr ∈ nodes, ptr.address < s.mNodePool.created

theorem Filled.push (filled : Filled s n) (run : Run (stack α) Transition.Free tr s) (data : α) :
    ∃ tr' s', Run (stack α) Transition.Free tr' s' ∧ Filled s' (n + 1) := by
  obtain ⟨quiet, dry, word, nodes, path, length, made⟩ := filled
  have began : (stack α).step s (.call (.push data)) = some { s with
      threads := s.threads ++ [⟨.push data, .alloc .readTop⟩]
      history := s.history ++ [.invoke s.threads.length (.push data)] } := rfl
  have began_at : (s.threads ++ [(⟨.push data, .alloc .readTop⟩ : Thread α)])[s.threads.length]? = some ⟨.push data, .alloc .readTop⟩ := by simp
  obtain ⟨more, -, run⟩ := Run.exec (run.step trivial began) (push_alone began_at dry) fun _ _ _ => trivial
  refine ⟨_, _, run, fun t member => ?_, dry, inc32_lt _, ⟨s.mNodePool.created, s.mID + 1⟩ :: nodes, ⟨rfl, ?_⟩, ?_, fun ptr member => ?_⟩
  · simp only [List.set_append_right _ _ (Nat.le_refl _), Nat.sub_self, List.set_cons_zero] at member
    rcases List.mem_append.mp member with old | last
    · exact quiet t old
    · rw [List.mem_singleton.mp last]
  · show Linked _ (if s.mNodePool.created = s.mNodePool.created then s.mTop else _) nodes
    rw [if_pos rfl]
    exact path.congr fun ptr member => if_neg (Nat.ne_of_lt (made ptr member))
  · rw [List.length_cons, length]
  · rcases List.mem_cons.mp member with rfl | old
    · exact Nat.lt_succ_self _
    · exact Nat.lt_succ_of_lt (made ptr old)

theorem Filled.pushes (data : α) (n : Nat) : ∃ tr s, Run (stack α) Transition.Free tr s ∧ Filled s n := by
  induction n with
  | zero => exact ⟨[], _, .init ⟨fun _ => data, rfl⟩, nofun, rfl, Nat.two_pow_pos 32, [], rfl, rfl, nofun⟩
  | succ n ih =>
    obtain ⟨tr, s, run, filled⟩ := ih
    exact filled.push run data

/-- After 2^32 calls of `Push` one after the other, `mCount` is not the number of nodes. -/
theorem count_of_full_stack_wraps : ∃ tr s, Run (stack Unit) Transition.Free tr s ∧ (∀ t ∈ s.threads, t.pc = .finished) ∧
    ∃ nodes, Linked (fun ptr => s.Next ptr.address) s.mTop nodes ∧ s.mCount ≠ nodes.length := by
  obtain ⟨tr, s, run, quiet, dry, word, nodes, path, length, made⟩ := Filled.pushes () (2 ^ 32)
  exact ⟨tr, s, run, quiet, nodes, path, by omega⟩

end WanNet.LockFreeStack
