import WanNet.LockFreeQueue.Tally

/-!
`LockFreeQueue` against a queue whose calls take effect one after the other.
-/

namespace WanNet.LockFreeQueue
open Transition Treiber ObjectPool Threads Chains Concurrent

variable {α : Type}

def fifo (α : Type) : Object (Op α) (Ret α) (List α) where
  start := []
  apply q
    | .enqueue data => (q ++ [data], .enqueued)
    | .tryDequeue => match q with
      | [] => ([], .empty)
      | outData :: q => (q, .dequeued outData)

def Settled (order : List (Entry (Op α) (Ret α))) (i : Nat) (op : Op α) : Pc α → Prop
  | .swapTail _ _ | .count | .finished => True
  | .free _ outData | .uncount outData => ⟨i, op, .dequeued outData⟩ ∈ order
  | _ => i ∉ order.map Entry.id

/-- An order that explains the calls: the nodes of `done` are enqueued in it, and those of `pending` are linked behind
them and not enqueued yet. -/
structure Linear (s : Queue α) (order : List (Entry (Op α) (Ret α))) (done pending : List Ptr) : Prop where
  explains : Explains (fifo α) s.history order (done.map fun ptr => s.Data ptr.address)
  committed : ∀ ptr ∈ done, ∃ o, ⟨s.source ptr, o, .enqueued⟩ ∈ order
  waiting : ∀ ptr ∈ pending, (∃ t, s.threads[s.source ptr]? = some t ∧ t.pc.uncounted = 1) ∧ s.source ptr ∉ order.map Entry.id
  calls : ∀ i t, s.threads[i]? = some t → .invoke i t.op ∈ s.history ∧ Settled order i t.op t.pc
  begun : ∀ i o, .invoke i o ∈ s.history → i < s.threads.length

variable {s u : Queue α} {chain chain' after : List Ptr} {groups groups' : List (List Ptr)} {t : Thread α} {pc pc' : Pc α} {i j : Nat}
  {tr : List (Queue α × Label α)} {r : Option (Ret α)} {p new first : Ptr} {data : α} {order : List (Entry (Op α) (Ret α))}
  {done done' pending : List Ptr} {ret : Ret α} {op : Op α} {e : Entry (Op α) (Ret α)}

theorem out_of_more (out : i ∉ order.map Entry.id) (other : e.id ≠ i) : i ∉ (order ++ [e]).map Entry.id := by
  rw [List.map_append, List.mem_append, not_or]
  exact ⟨out, fun member => other (List.mem_singleton.mp member).symm⟩

theorem Settled.more (settled : Settled order i op pc) (other : e.id ≠ i) : Settled (order ++ [e]) i op pc := by
  cases pc with
  | swapTail | count | finished => trivial
  | free | uncount => exact List.mem_append_left _ settled
  | _ => exact out_of_more settled other

theorem uncounted_moved (at_i : s.threads[i]? = some t) (linked : ∃ t, s.threads[j]? = some t ∧ t.pc.uncounted = 1)
    (kept : j = i → t.pc.uncounted = 1 → pc'.uncounted = 1) : ∃ x, (s.threads.set i ⟨t.op, pc'⟩)[j]? = some x ∧ x.pc.uncounted = 1 := by
  obtain ⟨x, at_j, linked⟩ := linked
  by_cases here : j = i
  · subst here
    obtain rfl := Option.some.inj (at_j.symm.trans at_i)
    exact ⟨_, List.getElem?_set_self (List.getElem?_eq_some_iff.mp at_i).1, kept rfl linked⟩
  · exact ⟨x, (List.getElem?_set_ne (Ne.symm here)).trans at_j, linked⟩

theorem Linear.still (linear : Linear s order done pending) (at_i : s.threads[i]? = some t)
    (same : ∀ ptr ∈ done ++ pending, u.source ptr = s.source ptr ∧ u.Data ptr.address = s.Data ptr.address)
    (uncounted : t.pc.uncounted = 1 → pc'.uncounted = 1) (settled : Settled order i t.op pc') :
    Linear (s.acted u i t.op pc' none) order done pending := by
  have data : done.map (fun ptr => u.Data ptr.address) = done.map fun ptr => s.Data ptr.address :=
    List.map_congr_left fun ptr member => (same ptr (List.mem_append_left _ member)).2
  refine ⟨?_, fun ptr member => ?_, fun ptr member => ?_, fun j x at_j => ?_, fun j o member => ?_⟩
  · show Explains (fifo α) (s.history ++ []) order (done.map fun ptr => u.Data ptr.address)
    rw [List.append_nil, data]
    exact linear.explains
  · obtain ⟨o, member'⟩ := linear.committed ptr member
    exact ⟨o, (same ptr (List.mem_append_left _ member)).1 ▸ member'⟩
  · obtain ⟨linked, out⟩ := linear.waiting ptr member
    show (∃ t, (s.threads.set i ⟨_, _⟩)[u.source ptr]? = some t ∧ _) ∧ u.source ptr ∉ _
    rw [(same ptr (List.mem_append_right _ member)).1]
    exact ⟨uncounted_moved at_i linked fun _ => uncounted, out⟩
  · obtain ⟨invoked, settled'⟩ : .invoke j x.op ∈ s.history ∧ Settled order j x.op x.pc := by
      rcases at_set at_j with ⟨rfl, rfl⟩ | ⟨-, at_j⟩
      · exact ⟨(linear.calls j t at_i).1, settled⟩
      · exact linear.calls j x at_j
    exact ⟨List.mem_append_left _ invoked, settled'⟩
  · have old : .invoke j o ∈ s.history := by simpa using member
    exact Nat.lt_of_lt_of_eq (linear.begun j o old) List.length_set.symm

/-- A node is linked. -/
theorem Linear.snoc (linear : Linear s order done pending) (linked : ∃ t, s.threads[s.source new]? = some t ∧ t.pc.uncounted = 1)
    (out : s.source new ∉ order.map Entry.id) : Linear s order done (pending ++ [new]) := by
  refine ⟨linear.explains, linear.committed, fun ptr member => ?_, linear.calls, linear.begun⟩
  rcases List.mem_append.mp member with old | last
  · exact linear.waiting ptr old
  · obtain rfl := List.mem_singleton.mp last
    exact ⟨linked, out⟩

/-- The first of the nodes that are not enqueued yet is. -/
theorem Linear.enqueue (linear : Linear s order done (p :: pending)) (written : s.Written p.address)
    (distinct : s.source p ∉ pending.map s.source) :
    Linear s (order ++ [⟨s.source p, .enqueue (s.Data p.address), .enqueued⟩]) (done ++ [p]) pending := by
  obtain ⟨⟨x, at_x, linked⟩, out⟩ := linear.waiting p (.head _)
  obtain ⟨y, at_y, op⟩ := Option.map_eq_some_iff.mp written
  have invoked := (linear.calls _ y at_y).1
  rw [op] at invoked
  refine ⟨?_, fun ptr member => ?_, fun ptr member => ?_, fun j z at_j => ?_, linear.begun⟩
  · rw [List.map_append]
    exact linear.explains.commit invoked out rfl
  · rcases List.mem_append.mp member with old | last
    · obtain ⟨o, there⟩ := linear.committed ptr old
      exact ⟨o, List.mem_append_left _ there⟩
    · obtain rfl := List.mem_singleton.mp last
      exact ⟨_, List.mem_append_right _ (.head _)⟩
  · obtain ⟨linked, out⟩ := linear.waiting ptr (.tail _ member)
    refine ⟨linked, out_of_more out fun same => distinct ?_⟩
    rw [show s.source p = s.source ptr from same]
    exact List.mem_map_of_mem member
  · obtain ⟨invoked, settled⟩ := linear.calls j z at_j
    refine ⟨invoked, ?_⟩
    by_cases own : s.source p = j
    · subst own
      obtain rfl := Option.some.inj (at_j.symm.trans at_x)
      cases pc : z.pc with
      | swapTail | count => trivial
      | _ =>
        rw [pc] at linked
        cases linked
    · exact settled.more own

theorem Linear.enqueue_all {more : List Ptr} (linear : Linear s order done (more ++ pending)) (written : ∀ ptr ∈ more, s.Written ptr.address)
    (distinct : ((more ++ pending).map s.source).Nodup) : ∃ order', Linear s order' (done ++ more) pending := by
  induction more generalizing order done with
  | nil => exact ⟨order, by rw [List.append_nil]; exact linear⟩
  | cons p more ih =>
    obtain ⟨apart, rest⟩ := List.nodup_cons.mp distinct
    obtain ⟨order', linear'⟩ := ih (linear.enqueue (written p (.head _)) apart) (fun ptr member => written ptr (.tail _ member)) rest
    exact ⟨order', by rw [List.append_assoc] at linear'; exact linear'⟩

theorem Linear.respond (linear : Linear s order done pending) (at_i : s.threads[i]? = some t) (same : u.writer = s.writer ∧ u.Data = s.Data)
    (took : ⟨i, op, ret⟩ ∈ order) : Linear (s.acted u i t.op .finished (some ret)) order done pending := by
  obtain ⟨writer, Data⟩ := same
  have source : u.source = s.source := by
    unfold Queue.source
    rw [writer]
  refine ⟨?_, fun ptr member => ?_, fun ptr member => ?_, fun j x at_j => ?_, fun j o member => ?_⟩
  · show Explains (fifo α) (s.history ++ [.response i ret]) order (done.map fun ptr => u.Data ptr.address)
    rw [Data]
    exact linear.explains.response took
  · show ∃ o, ⟨u.source ptr, o, .enqueued⟩ ∈ order
    rw [source]
    exact linear.committed ptr member
  · obtain ⟨linked, out⟩ := linear.waiting ptr member
    show (∃ t, (s.threads.set i ⟨_, _⟩)[u.source ptr]? = some t ∧ _) ∧ u.source ptr ∉ _
    rw [source]
    refine ⟨uncounted_moved at_i linked fun own => ?_, out⟩
    exact absurd (List.mem_map_of_mem took) (own ▸ out)
  · rcases at_set at_j with ⟨rfl, rfl⟩ | ⟨-, at_j⟩
    · exact ⟨List.mem_append_left _ (linear.calls j t at_i).1, trivial⟩
    · obtain ⟨invoked, settled⟩ := linear.calls j x at_j
      exact ⟨List.mem_append_left _ invoked, settled⟩
  · have old : .invoke j o ∈ s.history := by simpa using member
    exact Nat.lt_of_lt_of_eq (linear.begun j o old) List.length_set.symm

theorem Linear.dequeue (linear : Linear s order done pending) (at_i : s.threads[i]? = some t) (is_dequeue : t.op = .tryDequeue)
    (fresh : i ∉ order.map Entry.id) (foreign : ∀ ptr ∈ pending, s.source ptr ≠ i) (same : u.writer = s.writer ∧ u.Data = s.Data)
    (apply : (fifo α).apply (done.map fun ptr => s.Data ptr.address) .tryDequeue = (done'.map fun ptr => s.Data ptr.address, ret))
    (kept : ∀ ptr ∈ done', ptr ∈ done) (settled : Settled (order ++ [⟨i, .tryDequeue, ret⟩]) i t.op pc') (returns : r = none ∨ r = some ret) :
    Linear (s.acted u i t.op pc' r) (order ++ [⟨i, .tryDequeue, ret⟩]) done' pending := by
  obtain ⟨writer, Data⟩ := same
  have source : u.source = s.source := by
    unfold Queue.source
    rw [writer]
  have invoked := (linear.calls i t at_i).1
  rw [is_dequeue] at invoked
  have explains := linear.explains.commit invoked fresh apply
  refine ⟨?_, fun ptr member => ?_, fun ptr member => ?_, fun j x at_j => ?_, fun j o member => ?_⟩
  · show Explains (fifo α) (s.history ++ (r.map (Event.response i)).toList) _ (done'.map fun ptr => u.Data ptr.address)
    rw [Data]
    rcases returns with rfl | rfl
    · show Explains (fifo α) (s.history ++ []) _ _
      rw [List.append_nil]
      exact explains
    · exact explains.response (List.mem_append_right _ (.head _))
  · obtain ⟨o, there⟩ := linear.committed ptr (kept ptr member)
    refine ⟨o, List.mem_append_left _ ?_⟩
    show ⟨u.source ptr, o, .enqueued⟩ ∈ order
    rw [source]
    exact there
  · obtain ⟨linked, out⟩ := linear.waiting ptr member
    have other := foreign ptr member
    show (∃ t, (s.threads.set i ⟨_, _⟩)[u.source ptr]? = some t ∧ _) ∧ u.source ptr ∉ _
    rw [source]
    exact ⟨uncounted_moved at_i linked fun own => absurd own other, out_of_more out (Ne.symm other)⟩
  · rcases at_set at_j with ⟨rfl, rfl⟩ | ⟨other, at_j⟩
    · exact ⟨List.mem_append_left _ (linear.calls j t at_i).1, settled⟩
    · obtain ⟨invoked, settled⟩ := linear.calls j x at_j
      exact ⟨List.mem_append_left _ invoked, settled.more (Ne.symm other)⟩
  · have old : .invoke j o ∈ s.history := by simpa using member
    exact Nat.lt_of_lt_of_eq (linear.begun j o old) List.length_set.symm

theorem Linear.call (linear : Linear s order done pending) (op : Op α) : Linear (s.called op) order done pending := by
  have unborn : s.threads.length ∉ order.map Entry.id := by
    intro member
    obtain ⟨e, there, is⟩ := List.mem_map.mp member
    have := linear.begun _ _ (linear.explains.invoked e there)
    omega
  refine ⟨?_, linear.committed, fun ptr member => ?_, fun j x at_j => ?_, fun j o member => ?_⟩
  · exact linear.explains.invoke fun o member => Nat.lt_irrefl _ (linear.begun _ o member)
  · obtain ⟨⟨x, at_x, linked⟩, out⟩ := linear.waiting ptr member
    exact ⟨⟨x, (List.getElem?_append_left (List.getElem?_eq_some_iff.mp at_x).1).trans at_x, linked⟩, out⟩
  · rcases at_append_one at_j with old | ⟨rfl, rfl⟩
    · obtain ⟨invoked, settled⟩ := linear.calls j x old
      exact ⟨List.mem_append_left _ invoked, settled⟩
    · refine ⟨List.mem_append_right _ (.head _), ?_⟩
      cases op <;> exact unborn
  · show j < (s.threads ++ [_]).length
    rw [List.length_append]
    rcases List.mem_append.mp member with old | last
    · exact Nat.lt_succ_of_lt (linear.begun j o old)
    · cases List.mem_singleton.mp last
      exact Nat.lt_succ_self _

/-- The calls have an order that explains them, and the last node that is enqueued in it is one whose `Enqueue` has returned. -/
def InOrder (s : Queue α) (after : List Ptr) : Prop := ∃ order done pending, after = done ++ pending ∧ Linear s order done pending ∧
  ∀ ptr ∈ done.getLast?, s.ended (s.source ptr) = true

structure Explained (s : Queue α) (chain : List Ptr) (groups : List (List Ptr)) : Prop where
  orderly : Orderly s chain groups
  values : Values s chain groups
  runs : ∀ t ∈ s.threads, t.op.runs t.pc = true
  tallied : Tallied s chain.tail
  inOrder : InOrder s chain.tail

theorem Linear.live (linear : Linear s order done pending) (member : p ∈ pending) : s.ended (s.source p) = false := by
  obtain ⟨⟨t, at_p, linked⟩, -⟩ := linear.waiting p member
  rw [ended_of_at at_p]
  cases pc : t.pc with
  | swapTail | count => rfl
  | _ =>
    rw [pc] at linked
    cases linked

/-- `mCount` is 0: no `Enqueue` that returned has a node on the queue. -/
theorem Tallied.none_done (tallied : Tallied s (done ++ pending)) (last : ∀ ptr ∈ done.getLast?, s.ended (s.source ptr) = true)
    (zero : s.mCount = 0) : done = [] := by
  by_contra some_done
  have member := List.getLast_mem some_done
  have ended := last _ (List.getLast?_eq_some_getLast some_done)
  have pos : 0 < (done ++ pending).countP fun ptr => s.ended (s.source ptr) :=
    List.countP_pos_iff.mpr ⟨_, List.mem_append_left _ member, ended⟩
  have := tallied.count
  omega

theorem last_acted (last : ∀ ptr ∈ done.getLast?, s.ended (s.source ptr) = true) (at_i : s.threads[i]? = some t) (live : t.pc.ended = false)
    (source : ∀ ptr ∈ done, u.source ptr = s.source ptr) (r : Option (Ret α)) :
    ∀ ptr ∈ done.getLast?, (s.acted u i t.op pc' r).ended (u.source ptr) = true := by
  intro ptr member
  rw [source ptr (List.mem_of_getLast? member)]
  exact ended_mono at_i u r live (last ptr member)

/-- A step of a call that neither takes effect nor returns. -/
theorem Linear.kept (linear : Linear s order done pending) (split : after = done ++ pending)
    (last : ∀ ptr ∈ done.getLast?, s.ended (s.source ptr) = true) (at_i : s.threads[i]? = some t) (live : t.pc.ended = false)
    (same : ∀ ptr ∈ after, u.source ptr = s.source ptr ∧ u.Data ptr.address = s.Data ptr.address)
    (uncounted : t.pc.uncounted = 1 → pc'.uncounted = 1) (settled : Settled order i t.op pc') : InOrder (s.acted u i t.op pc' none) after := by
  subst split
  exact ⟨order, done, pending, rfl, linear.still at_i same uncounted settled,
    last_acted last at_i live (fun ptr member => (same ptr (List.mem_append_left _ member)).1) none⟩

/-- The CAS on `mHead`: the first node's value is dequeued. -/
theorem InOrder.take (inOrder : InOrder s (first :: after)) (at_i : s.threads[i]? = some t) (here : t.pc = .swapHead s.mHead first data)
    (op : t.op = .tryDequeue) (foreign : ∀ ptr ∈ first :: after, s.source ptr ≠ i) (value : data = s.Data first.address)
    (counted : s.ended (s.source first) = true) :
    InOrder (s.acted { s with mHead := first, taken := s.taken ++ [(i, s.writer first.address)] } i t.op
      (.free (.takeID s.mHead.address) data) none) after := by
  obtain ⟨order, done, pending, split, linear, last⟩ := inOrder
  have settled := (linear.calls i t at_i).2
  rw [here] at settled
  cases done with
  | nil =>
    have live := linear.live (p := first) (by rw [← List.nil_append pending, ← split]; exact .head _)
    rw [counted] at live
    cases live
  | cons x done =>
    obtain ⟨rfl, rfl⟩ := List.cons.inj split
    subst value
    refine ⟨_, done, pending, rfl, linear.dequeue at_i op settled (fun ptr member => foreign ptr (.tail _ (List.mem_append_right _ member)))
      ⟨rfl, rfl⟩ rfl (fun ptr member => .tail _ member) ?_ (.inl rfl), ?_⟩
    · rw [op]
      exact List.mem_append_right _ (.head _)
    · refine last_acted (fun ptr member => last ptr ?_) at_i (by rw [here]; rfl) (fun _ _ => rfl) none
      rw [List.getLast?_cons, member]
      rfl

/-- `InterlockedIncrement` of `mCount`: the nodes up to the call's own are enqueued by now. -/
theorem InOrder.count (inOrder : InOrder s chain.tail) (values : Values s chain groups) (at_i : s.threads[i]? = some t) (here : t.pc = .count)
    (once : (chain.tail.map s.source).count i = 1) :
    InOrder (s.acted { s with mCount := inc32 s.mCount } i t.op .finished (some .enqueued)) chain.tail := by
  obtain ⟨order, done, pending, split, linear, last⟩ := inOrder
  have live : t.pc.ended = false := by rw [here]; rfl
  obtain ⟨ptr, member, own⟩ := List.mem_map.mp (List.count_pos_iff.mp (Nat.lt_of_lt_of_eq Nat.zero_lt_one once.symm))
  rw [split] at member
  rcases List.mem_append.mp member with old | waiting
  · obtain ⟨o, took⟩ := linear.committed ptr old
    exact ⟨order, done, pending, split, linear.respond at_i ⟨rfl, rfl⟩ (own ▸ took), last_acted last at_i live (fun _ _ => rfl) (some .enqueued)⟩
  · obtain ⟨before, behind, rfl⟩ := List.append_of_mem waiting
    have written (x : Ptr) (on : x ∈ before ++ [ptr]) : s.Written x.address := by
      refine values.written _ (.head _) x ?_
      rw [split, List.append_cons]
      exact List.mem_append_right _ (List.mem_append_left _ on)
    have distinct : ((before ++ [ptr] ++ behind).map s.source).Nodup := by
      refine List.nodup_iff_count_le_one.mpr fun j => ?_
      have := values.once_le j
      rw [tally_cons, split, List.map_append, List.count_append] at this
      rw [← List.append_cons]
      omega
    rw [List.append_cons] at linear
    obtain ⟨order', linear'⟩ := linear.enqueue_all written distinct
    obtain ⟨o, took⟩ := linear'.committed ptr (by simp)
    refine ⟨order', done ++ (before ++ [ptr]), behind, by rw [split, List.append_cons before, List.append_assoc done],
      linear'.respond at_i ⟨rfl, rfl⟩ (own ▸ took), fun x is => ?_⟩
    rw [← List.append_assoc, List.getLast?_concat] at is
    obtain rfl := Option.some.inj is
    show Queue.ended _ (s.source ptr) = true
    rw [own, ended_acted at_i, if_pos rfl]
    rfl

theorem InOrder.empty (inOrder : InOrder s after) (tallied : Tallied s after) (at_i : s.threads[i]? = some t) (op : t.op = .tryDequeue)
    (foreign : ∀ ptr ∈ after, s.source ptr ≠ i) (zero : s.mCount = 0)
    (fresh : ∀ order, Settled order i t.op t.pc → i ∉ order.map Entry.id) : InOrder (s.acted s i t.op .finished (some .empty)) after := by
  obtain ⟨order, done, pending, rfl, linear, last⟩ := inOrder
  obtain rfl := tallied.none_done last zero
  exact ⟨_, [], pending, rfl, linear.dequeue at_i op (fresh order (linear.calls i t at_i).2) foreign ⟨rfl, rfl⟩ rfl (fun _ => id) trivial (.inr rfl),
    fun _ member => by cases member⟩

theorem InOrder.step (inOrder : InOrder s chain.tail) (orderly : Orderly s chain groups) (values : Values s chain groups)
    (runs : ∀ t ∈ s.threads, t.op.runs t.pc = true) (tallied : Tallied s chain.tail) (at_i : s.threads[i]? = some t)
    (moved : Moves s i t.op t.pc u pc' r) (plain : Plain s t.pc pc' chain chain')
    (takes : ∀ first ∈ t.pc.taking s.mHead, s.ended (s.source first) = true) : InOrder (s.acted u i t.op pc' r) chain'.tail := by
  have own_op (inside : t.pc.dequeuing = true) := tryDequeue_of_runs (runs t (List.mem_of_getElem? at_i)) inside
  have once (linked : t.pc.uncounted = 1) := linked_once orderly values tallied.taken runs at_i linked
  obtain ⟨order, done, pending, split, linear, last⟩ := id inOrder
  have settled := (linear.calls i t at_i).2
  obtain ⟨op, pc⟩ := t
  cases plain with
  | append new tail p l here there is same =>
    obtain rfl : pc = .link new tail := here
    subst there
    have own : s.source new = i := (values.fresh i _ new at_i rfl).1
    cases moved
    rw [List.tail_append_of_ne_nil (by rw [is]; simp), split]
    have linked : Linear (s.acted { s with Next := fun a => if a = tail.address then some new else s.Next a } i op (.swapTail new tail) none)
        order done pending := linear.still at_i (fun _ _ => ⟨rfl, rfl⟩) (fun linked => by cases linked) trivial
    refine ⟨order, done, pending ++ [new], List.append_assoc .., linked.snoc ⟨⟨op, .swapTail new tail⟩, ?_, rfl⟩ (own ▸ settled),
      last_acted last at_i rfl (fun _ _ => rfl) none⟩
    show (s.threads.set i _)[s.source new]? = _
    rw [own]
    exact List.getElem?_set_self (List.getElem?_eq_some_iff.mp at_i).1
  | take first rest outData here there is data =>
    obtain rfl : pc = .swapHead s.mHead first outData := here
    subst there is
    cases moved
    exact inOrder.take at_i rfl (own_op rfl) (values.foreign at_i (own_op rfl)) data (takes first (if_pos rfl))
  | none links taken =>
    cases moved with
    | writeData new =>
      obtain ⟨list, mem⟩ := orderly.memory
      have away (ptr : Ptr) (member : ptr ∈ chain.tail) : ptr.address ≠ new.address := by
        intro same
        have unlisted := mem.unlisted at_i (a := new.address) rfl
        have := tally_of_mem_head Ptr.address groups (List.mem_of_mem_tail member)
        rw [same] at this
        omega
      exact linear.kept split last at_i rfl (fun ptr member => ⟨if_neg (away ptr member), if_neg (away ptr member)⟩)
        (fun linked => by cases linked) settled
    | count => exact inOrder.count values at_i rfl (once rfl)
    | uncount outData =>
      exact ⟨order, done, pending, split, linear.respond at_i ⟨rfl, rfl⟩ settled,
        last_acted last at_i rfl (fun _ _ => rfl) (some (.dequeued outData))⟩
    | testEmpty zero | retestEmpty zero =>
      exact inOrder.empty tallied at_i (own_op rfl) (values.foreign at_i (own_op rfl)) zero fun _ => id
    | swapTail new tail => exact linear.kept split last at_i rfl (fun _ _ => ⟨rfl, rfl⟩) (fun _ => rfl) trivial
    | link new tail free => exact absurd free (links new tail rfl)
    | swapHead first outData => exact absurd rfl (taken first outData)
    | _ => exact linear.kept split last at_i rfl (fun _ _ => ⟨rfl, rfl⟩) (fun linked => by cases linked) settled

theorem ended_called (s : Queue α) (op : Op α) (j : Nat) : (s.called op).ended j = s.ended j := by
  have begins : op.begin.ended = false := by cases op <;> rfl
  have grown : (s.called op).ended j = if j = s.threads.length then op.begin.ended else s.ended j := elim_append_one ..
  rw [grown]
  split
  next here =>
    unfold Queue.ended
    rw [here, List.getElem?_eq_none (Nat.le_refl _), begins]
    rfl
  next => rfl

theorem Explained.call (explained : Explained s chain groups) (op : Op α) (turn : OneDequeuer s (.call op)) :
    Explained (s.called op) chain (groups ++ [[]]) := by
  obtain ⟨orderly, values, runs, tallied, order, done, pending, split, linear, last⟩ := explained
  have ended := ended_called s op
  refine ⟨orderly.call op turn, values.call op, runs_called runs op, ⟨fun x member => ?_, ?_⟩, order, done, pending, split, linear.call op,
    fun ptr member => ?_⟩
  · rw [ended]
    exact tallied.taken x member
  · have undone : op.begin.undone = 0 := by cases op <;> rfl
    simp only [ended]
    rw [total_append_one, undone]
    exact tallied.count
  · rw [ended]
    exact last ptr member

theorem Explained.thread (explained : Explained s chain groups) (prompt : Prompt s (.thread i)) (at_i : s.threads[i]? = some t)
    (moved : Moves s i t.op t.pc u pc' r) : ∃ chain' groups', Explained (s.acted u i t.op pc' r) chain' groups' := by
  obtain ⟨orderly, values, runs, tallied, inOrder⟩ := explained
  obtain ⟨-, links, takes, fits⟩ := prompt
  obtain ⟨list, mem⟩ := orderly.memory
  have apart (new tail : Ptr) (here : t.pc = .link new tail) (free : s.Next tail.address = none) (g : List Ptr) (member : g ∈ groups)
      (p : Ptr) (on : p ∈ g) : p.address ≠ tail.address := by
    obtain ⟨k, x, at_x, linking⟩ := orderly.leader member on
    exact links t at_i tail (by rw [here]; rfl) free x (List.mem_of_getElem? at_x) p linking
  obtain ⟨chain', groups', effect, plain, orderly'⟩ := orderly.thread at_i moved apart (fits t at_i)
  have values' := values.step mem at_i moved effect
  exact ⟨chain', groups', orderly', ⟨values'.fresh, values'.written, values'.once⟩, runs_acted runs at_i moved,
    tallied.step orderly values runs at_i moved plain (takes t at_i) (fits t at_i), inOrder.step orderly values runs tallied at_i moved plain (takes t at_i)⟩

theorem Explained.init (data : Nat → α) : Explained ({ Data := data } : Queue α) [⟨0, 0⟩] [] := by
  refine ⟨Orderly.init data, Values.init data, List.forall_mem_nil _, ⟨List.forall_mem_nil _, rfl⟩, [], [], [], rfl,
    ⟨Explains.init, List.forall_mem_nil _, List.forall_mem_nil _, fun i t at_i => ?_, fun i o member => ?_⟩, fun ptr member => ?_⟩
  · cases at_i
  · cases member
  · cases member

theorem run_explained (run : Run (queue α) Prompt tr s) : ∃ chain groups, Explained s chain groups := by
  refine run.invariant_state (I := fun s => ∃ chain groups, Explained s chain groups) (fun s start => ?_) fun s l u explained prompt h => ?_
  · obtain ⟨data, rfl⟩ := start
    exact ⟨_, _, Explained.init data⟩
  obtain ⟨chain, groups, explained⟩ := explained
  cases l with
  | call op =>
    cases h
    exact ⟨_, _, explained.call op prompt.1⟩
  | thread i =>
    obtain ⟨t, v, pc', r, at_i, moved, rfl⟩ := step_thread h
    exact explained.thread prompt at_i moved

/-- The calls take effect one after the other, each between its invocation and its return, as on a FIFO queue. -/
theorem calls_linearize (run : Run (queue α) Prompt tr s) : Linearizable (fifo α) s.history := by
  obtain ⟨chain, groups, explained⟩ := run_explained run
  obtain ⟨order, done, pending, -, linear, -⟩ := explained.inOrder
  exact ⟨order, _, linear.explains⟩

/-- Two calls of `Enqueue` overlap, and the one that began last links its node first. -/
theorem overtaken_enqueue_linearizes : ∃ tr s, Run (queue Nat) Prompt tr s ∧ s.history = [.invoke 0 (.enqueue 5), .invoke 1 (.enqueue 7),
      .response 1 .enqueued, .invoke 2 .tryDequeue, .response 2 (.dequeued 7), .response 0 .enqueued, .invoke 3 .tryDequeue,
      .response 3 (.dequeued 5), .invoke 4 .tryDequeue, .response 4 .empty] ∧ Linearizable (fifo Nat) s.history := by
  have along : Along (queue Nat) Prompt { Data := fun _ => 0 } [begins (.enqueue 5) 0 6, begins (.enqueue 7) 1 10,
      begins .tryDequeue 2 12, List.replicate 4 (.thread 0), begins .tryDequeue 3 12, begins .tryDequeue 4 1].flatten := by decide +kernel
  obtain ⟨s, reached, run⟩ := Run.along (S := queue Nat) (.init ⟨fun _ => 0, rfl⟩) along
  have history : (exec (queue Nat) { Data := fun _ => 0 } [begins (.enqueue 5) 0 6, begins (.enqueue 7) 1 10,
      begins .tryDequeue 2 12, List.replicate 4 (.thread 0), begins .tryDequeue 3 12, begins .tryDequeue 4 1].flatten).map Queue.history =
      some [.invoke 0 (.enqueue 5), .invoke 1 (.enqueue 7), .response 1 .enqueued, .invoke 2 .tryDequeue, .response 2 (.dequeued 7),
        .response 0 .enqueued, .invoke 3 .tryDequeue, .response 3 (.dequeued 5), .invoke 4 .tryDequeue, .response 4 .empty] := by decide +kernel
  rw [reached, Option.map_some, Option.some.injEq] at history
  exact ⟨_, s, run, history, calls_linearize run⟩

/-- A value that goes in, where the queue is empty in the end, comes out. -/
theorem comes_out {q : List α} (executes : Executes (fifo α) q order []) (value : data ∈ q ∨ ∃ e ∈ order, e.op = .enqueue data) :
    ∃ e ∈ order, e.ret = .dequeued data := by
  induction order generalizing q with
  | nil =>
    obtain rfl := executes
    rcases value with there | ⟨e, member, -⟩
    · cases there
    · cases member
  | cons e order ih =>
    obtain ⟨id, op, ret⟩ := e
    obtain ⟨returns, rest⟩ := executes
    have later (goes : data ∈ ((fifo α).apply q op).1 ∨ ∃ e ∈ order, e.op = .enqueue data) :
        ∃ e ∈ Entry.mk id op ret :: order, e.ret = .dequeued data := by
      obtain ⟨e, member, is⟩ := ih rest goes
      exact ⟨e, .tail _ member, is⟩
    rcases value with there | ⟨e, member, is⟩
    · cases op with
      | enqueue other => exact later (.inl (List.mem_append_left _ there))
      | tryDequeue =>
        cases q with
        | nil => cases there
        | cons first q =>
          rcases List.mem_cons.mp there with rfl | behind
          · exact ⟨_, .head _, returns.symm⟩
          · exact later (.inl behind)
    · rcases List.mem_cons.mp member with rfl | behind
      · obtain rfl : op = .enqueue data := is
        exact later (.inl (List.mem_append_right _ (.head _)))
      · exact later (.inr ⟨e, behind, is⟩)

/-- An `Enqueue` has linked its node and not raised `mCount`, another one goes in behind it and returns, and `TryDequeue` returns
the first value and lowers `mCount` to 0: the next `TryDequeue` returns `false` and leaves the second value where it is. -/
theorem late_count_hides_value : ∃ tr s, Run (queue Nat) OneDequeuer tr s ∧ (∀ t ∈ s.threads, t.pc = .finished) ∧
    ¬ Linearizable (fifo Nat) s.history := by
  have along : Along (queue Nat) OneDequeuer { Data := fun _ => 0 } [begins (.enqueue 5) 0 9, begins (.enqueue 7) 1 10,
      begins .tryDequeue 2 12, begins .tryDequeue 3 1, [.thread 0]].flatten := by decide +kernel
  obtain ⟨s, reached, run⟩ := Run.along (S := queue Nat) (.init ⟨fun _ => 0, rfl⟩) along
  have calls : (exec (queue Nat) { Data := fun _ => 0 } [begins (.enqueue 5) 0 9, begins (.enqueue 7) 1 10,
      begins .tryDequeue 2 12, begins .tryDequeue 3 1, [.thread 0]].flatten).map (fun s => (s.threads.map Thread.pc, s.history)) =
      some ([.finished, .finished, .finished, .finished], [.invoke 0 (.enqueue 5), .invoke 1 (.enqueue 7), .response 1 .enqueued,
        .invoke 2 .tryDequeue, .response 2 (.dequeued 5), .invoke 3 .tryDequeue, .response 3 .empty, .response 0 .enqueued]) := by
    decide +kernel
  rw [reached] at calls
  simp only [Option.map_some, Option.some.injEq, Prod.mk.injEq] at calls
  obtain ⟨ended, history⟩ := calls
  refine ⟨_, s, run, all_finished (n := 4) ended, ?_⟩
  rintro ⟨order, q, explains⟩
  -- the call that returned `false` has the empty queue before it, and the second `Enqueue` before that
  obtain ⟨o, none_left⟩ := explains.returned 3 .empty (by simp [history])
  have invoked := explains.invoked _ none_left
  obtain rfl : o = .tryDequeue := by simpa [history] using invoked
  obtain ⟨before, behind, rfl⟩ := List.append_of_mem none_left
  obtain ⟨o, went_in⟩ := explains.returned 1 .enqueued (by simp [history])
  have invoked := explains.invoked _ went_in
  obtain rfl : o = .enqueue 7 := by simpa [history] using invoked
  have precedes : Precedes s.history 1 3 := ⟨.enqueued, .tryDequeue, by rw [history]; decide⟩
  have earlier : ⟨1, .enqueue 7, .enqueued⟩ ∈ before := by
    rcases List.mem_append.mp went_in with there | there
    · exact there
    · rcases List.mem_cons.mp there with same | later
      · cases same
      · have order := (List.pairwise_append.mp explains.realtime).2.1
        exact absurd precedes ((List.pairwise_cons.mp order).1 _ later)
  obtain ⟨u, executes, last, -⟩ := explains.executes.split
  obtain rfl : u = [] := by
    cases u with
    | nil => rfl
    | cons => cases last
  obtain ⟨⟨id, op, ret⟩, member, rfl⟩ := comes_out executes (.inr ⟨_, earlier, rfl⟩)
  have there : ⟨id, op, .dequeued 7⟩ ∈ before ++ ⟨3, .tryDequeue, .empty⟩ :: behind := List.mem_append_left _ member
  have returns (r : Ret Nat) (returned : .response id r ∈ s.history) : .dequeued 7 = r := explains.ret_eq there returned
  have invoked := explains.invoked _ there
  simp only [history, List.mem_cons, Event.invoke.injEq, reduceCtorEq, false_or, or_false, List.not_mem_nil] at invoked
  rcases invoked with ⟨rfl, -⟩ | ⟨rfl, -⟩ | ⟨rfl, -⟩ | ⟨rfl, -⟩
  · cases returns .enqueued (by simp [history])
  · cases returns .enqueued (by simp [history])
  · cases returns (.dequeued 5) (by simp [history])
  · cases returns .empty (by simp [history])

end WanNet.LockFreeQueue
