import WanNet.LockFreeQueue.Pointers

/-!
Where the value of each `Enqueue` is: with its call, in a node, or dequeued.
-/

namespace WanNet.LockFreeQueue
open Transition Treiber ObjectPool Threads Chains Concurrent

variable {α : Type}

def Queue.Supplies (s : Queue α) (j : Nat) (data : α) : Prop := (s.threads[j]?).map Thread.op = some (.enqueue data)

def Queue.Written (s : Queue α) (a : Nat) : Prop := s.Supplies (s.writer a) (s.Data a)

/-- 1 for a call that has no node on a list yet. -/
def Pc.unlinked : Pc α → Nat
  | .takeID | .alloc _ _ | .writeData _ | .writeNext _ => 1
  | _ => 0

def Op.enqueues : Op α → Nat
  | .enqueue _ => 1
  | .tryDequeue => 0

abbrev Queue.source (s : Queue α) (ptr : Ptr) : Nat := s.writer ptr.address

/-- The pointer of an `Enqueue` that has written its node and not linked it. -/
def Pc.written : Pc α → Option Ptr
  | .writeNext newTail | .readTail newTail | .link newTail _ | .readTailNext newTail _ | .helpTail newTail _ _ => some newTail
  | _ => none

/-- The first node of the queue has no value. -/
structure Values (s : Queue α) (chain : List Ptr) (groups : List (List Ptr)) : Prop where
  fresh : ∀ i t new, s.threads[i]? = some t → t.pc.written = some new → s.writer new.address = i ∧ s.Written new.address
  written : ∀ path ∈ chain.tail :: groups, ∀ ptr ∈ path, s.Written ptr.address
  once : ∀ j, (s.taken.map Prod.snd).count j + tally s.source j (chain.tail :: groups) + (s.threads[j]?).elim 0 (fun t => t.pc.unlinked) =
    (s.threads[j]?).elim 0 (fun t => t.op.enqueues)

/-- The value that a call has dequeued and not returned. -/
def Pc.holding : Pc α → Option α
  | .free _ outData | .uncount outData => some outData
  | _ => none

/-- 1 for a call that may dequeue a value. -/
def Pc.untaken : Pc α → Nat
  | .free _ _ | .uncount _ | .finished => 0
  | _ => 1

/-- The `i`-th call has dequeued the value; it has it in hand, or returned it. -/
def Queue.Dequeued (s : Queue α) (i : Nat) (data : α) : Prop :=
  (∃ t, s.threads[i]? = some t ∧ t.pc.holding = some data) ∨ .response i (.dequeued data) ∈ s.history

structure Returns (s : Queue α) : Prop where
  took : ∀ i data, s.Dequeued i data → ∃ j, (i, j) ∈ s.taken ∧ s.Supplies j data
  kept : ∀ x ∈ s.taken, ∃ data, s.Supplies x.2 data ∧ s.Dequeued x.1 data
  one : ∀ i, (s.taken.map Prod.fst).count i + (s.threads[i]?).elim 1 (fun t => t.pc.untaken) ≤ 1

variable {s u v : Queue α} {chain chain' : List Ptr} {groups groups' : List (List Ptr)} {list : List Ptr} {t : Thread α} {pc' : Pc α}
  {i j : Nat} {data : α} {r : Option (Ret α)} {p new first tail : Ptr} {g l rest : List Ptr}

theorem supplies_moved (at_i : s.threads[i]? = some t) (u : Queue α) (pc' : Pc α) :
    (s.moved u i t.op pc').Supplies j data ↔ s.Supplies j data := by
  have same : (s.threads.set i ⟨t.op, pc'⟩).map Thread.op = s.threads.map Thread.op := by
    rw [List.map_set]
    exact set_same (by rw [List.getElem?_map, at_i]; rfl)
  unfold Queue.Supplies
  rw [← List.getElem?_map, same, List.getElem?_map]

theorem supplies_called (supplies : s.Supplies j data) (op : Op α) : (s.called op).Supplies j data := by
  obtain ⟨t, at_j, is⟩ := Option.map_eq_some_iff.mp supplies
  have lt := (List.getElem?_eq_some_iff.mp at_j).1
  show ((s.threads ++ [⟨op, op.begin⟩])[j]?).map Thread.op = _
  rw [List.getElem?_append_left lt, at_j, Option.map_some, is]

/-! ### The nodes' values -/

theorem Memory.sole (mem : Memory s (chain :: groups) list) (at_i : s.threads[i]? = some t) {x : Thread α} (at_j : s.threads[j]? = some x)
    (other : j ≠ i) {a : Nat} (own : t.pc.node = some a) : x.pc.node ≠ some a := by
  intro own'
  have := mem.owned a
  have := made_le_one s.mNodePool a
  have both := add_le_total (w := fun t : Thread α => t.pc.owns a) at_i at_j other
  have : t.pc.owns a = 1 := if_pos own
  have : x.pc.owns a = 1 := if_pos own'
  omega

theorem node_or_linking {pc : Pc α} (written : pc.written = some new) : pc.node = some new.address ∨ pc.linking = some new := by
  cases pc with
  | writeNext =>
    obtain rfl := Option.some.inj written
    exact .inl rfl
  | readTail | link | readTailNext | helpTail => exact .inr written
  | _ => cases written

theorem Values.move (values : Values s chain groups) (at_i : s.threads[i]? = some t)
    (fresh : ∀ j x new, (s.threads.set i ⟨t.op, pc'⟩)[j]? = some x → x.pc.written = some new →
      u.writer new.address = j ∧ s.Supplies (u.writer new.address) (u.Data new.address))
    (written : ∀ path ∈ chain'.tail :: groups', ∀ ptr ∈ path, s.Supplies (u.writer ptr.address) (u.Data ptr.address))
    (once : ∀ j, (u.taken.map Prod.snd).count j + tally u.source j (chain'.tail :: groups') + (if j = i then pc'.unlinked else 0) =
      (s.taken.map Prod.snd).count j + tally s.source j (chain.tail :: groups) + if j = i then t.pc.unlinked else 0) :
    Values (s.moved u i t.op pc') chain' groups' := by
  refine ⟨fun j x new at_j is => ?_, fun path member ptr on => ?_, fun j => ?_⟩
  · obtain ⟨own, supplies⟩ := fresh j x new at_j is
    exact ⟨own, (supplies_moved at_i u pc').mpr supplies⟩
  · exact (supplies_moved at_i u pc').mpr (written path member ptr on)
  · have before := values.once j
    have change := once j
    show (u.taken.map Prod.snd).count j + tally u.source j (chain'.tail :: groups') +
      ((s.threads.set i ⟨t.op, pc'⟩)[j]?).elim 0 (fun t => t.pc.unlinked) = ((s.threads.set i ⟨t.op, pc'⟩)[j]?).elim 0 (fun t => t.op.enqueues)
    rw [elim_set at_i, elim_set at_i]
    by_cases here : j = i
    · subst here
      rw [at_i] at before
      simp only [if_pos, Option.elim_some] at *
      omega
    · simp only [if_neg here] at *
      omega

/-- A step that writes no node's `Data`. -/
theorem Values.relink (values : Values s chain groups) (at_i : s.threads[i]? = some t) (same : u.writer = s.writer ∧ u.Data = s.Data)
    (fresh : ∀ new, pc'.written = some new → t.pc.written = some new) (written : ∀ path ∈ chain'.tail :: groups', ∀ ptr ∈ path, s.Written ptr.address)
    (once : ∀ j, (u.taken.map Prod.snd).count j + tally s.source j (chain'.tail :: groups') + (if j = i then pc'.unlinked else 0) =
      (s.taken.map Prod.snd).count j + tally s.source j (chain.tail :: groups) + if j = i then t.pc.unlinked else 0) :
    Values (s.moved u i t.op pc') chain' groups' := by
  obtain ⟨writer, Data⟩ := same
  refine values.move at_i (fun j x new at_j is => ?_) ?_ fun j => ?_
  · rcases at_set at_j with ⟨rfl, rfl⟩ | ⟨-, at_j⟩
    · rw [writer, Data]
      exact values.fresh j t new at_i (fresh new is)
    · rw [writer, Data]
      exact values.fresh j x new at_j is
  · rw [writer, Data]
    exact written
  · unfold Queue.source
    rw [writer]
    exact once j

theorem Values.still (values : Values s chain groups) (at_i : s.threads[i]? = some t)
    (same : u.writer = s.writer ∧ u.Data = s.Data ∧ u.taken = s.taken) (fresh : ∀ new, pc'.written = some new → t.pc.written = some new)
    (unlinked : pc'.unlinked = t.pc.unlinked) : Values (s.moved u i t.op pc') chain groups := by
  refine values.relink at_i ⟨same.1, same.2.1⟩ fresh values.written fun j => ?_
  rw [same.2.2, unlinked]

theorem Values.writeData (values : Values s chain groups) (mem : Memory s (chain :: groups) list) (at_i : s.threads[i]? = some t)
    (here : t.pc = .writeData new) (op : t.op = .enqueue data) :
    Values (s.moved { s with
      Data := fun a => if a = new.address then data else s.Data a
      writer := fun a => if a = new.address then i else s.writer a } i t.op (.writeNext new)) chain groups := by
  have own : t.pc.node = some new.address := by rw [here]; rfl
  have unlisted := mem.unlisted at_i own
  have away (path : List Ptr) (member : path ∈ chain.tail :: groups) (ptr : Ptr) (on : ptr ∈ path) : ptr.address ≠ new.address := by
    intro same
    have listed : ∃ path ∈ chain :: groups, ptr ∈ path := by
      rcases List.mem_cons.mp member with rfl | other
      · exact ⟨chain, .head _, List.mem_of_mem_tail on⟩
      · exact ⟨path, .tail _ other, on⟩
    obtain ⟨path, member, on⟩ := listed
    have := tally_of_mem Ptr.address member on
    rw [same] at this
    omega
  have supplies : s.Supplies i data := by
    show (s.threads[i]?).map Thread.op = _
    rw [at_i, ← op]
    rfl
  refine values.move at_i (fun j x other at_j is => ?_) (fun path member ptr on => ?_) fun j => ?_
  · rcases at_set at_j with ⟨rfl, rfl⟩ | ⟨apart, at_j⟩
    · obtain rfl : new = other := Option.some.inj is
      simp only [if_pos]
      exact ⟨trivial, supplies⟩
    · have elsewhere : other.address ≠ new.address := by
        intro same
        rcases node_or_linking is with node | linking
        · exact mem.sole at_i at_j apart own (same ▸ node)
        · obtain ⟨g, at_g, front⟩ := mem.group at_j
          have := tally_of_mem Ptr.address (List.mem_of_getElem? at_g) (List.mem_of_mem_head? (front.trans linking))
          rw [same] at this
          omega
      simp only [if_neg elsewhere]
      exact values.fresh j x other at_j is
  · simp only [if_neg (away path member ptr on)]
    exact values.written path member ptr on
  · have same : tally (fun ptr => if ptr.address = new.address then i else s.writer ptr.address) j (chain.tail :: groups) =
        tally s.source j (chain.tail :: groups) :=
      tally_congr (fun path member ptr on => if_neg (away path member ptr on)) j
    show _ + tally (fun ptr => if ptr.address = new.address then i else s.writer ptr.address) j (chain.tail :: groups) + _ = _
    rw [same, here]
    rfl

theorem Values.clear (values : Values s chain groups) (at_i : s.threads[i]? = some t) (here : t.pc = .writeNext new)
    (at_g : groups[i]? = some []) :
    Values (s.moved { s with Next := fun a => if a = new.address then none else s.Next a } i t.op (.readTail new)) chain (groups.set i [new]) := by
  obtain ⟨own, written⟩ := values.fresh i t new at_i (by rw [here]; rfl)
  refine values.relink at_i ⟨rfl, rfl⟩ (fun _ is => by rw [here]; exact is) (fun path member ptr on => ?_) fun j => ?_
  · rcases List.mem_cons.mp member with rfl | member
    · exact values.written _ (.head _) ptr on
    · rcases List.mem_or_eq_of_mem_set member with old | rfl
      · exact values.written _ (.tail _ old) ptr on
      · obtain rfl := List.mem_singleton.mp on
        exact written
  · have change := tally_set s.source j [new] at_g
    have listed : ([new].map s.source).count j = if j = i then 1 else 0 := by
      rw [List.map_cons, List.map_nil, List.count_singleton, show s.source new = i from own]
      simp only [beq_iff_eq]
      exact if_congr eq_comm rfl rfl
    rw [listed, List.map_nil, List.count_nil] at change
    rw [tally_cons, tally_cons, here]
    show (s.taken.map Prod.snd).count j + _ + (if j = i then 0 else 0) = _ + _ + if j = i then 1 else 0
    by_cases mine : j = i
    · simp only [if_pos mine] at *
      omega
    · simp only [if_neg mine] at *
      omega

theorem Values.append (values : Values s chain groups) (at_i : s.threads[i]? = some t) (here : t.pc = .link new tail)
    (at_g : groups[i]? = some g) (next : Nat → Option Ptr) (nonempty : chain ≠ []) :
    Values (s.moved { s with Next := next } i t.op (.swapTail new tail)) (chain ++ g) (groups.set i []) := by
  have grown : (chain ++ g).tail = chain.tail ++ g := List.tail_append_of_ne_nil nonempty
  refine values.relink at_i ⟨rfl, rfl⟩ (fun _ is => by cases is) (fun path member ptr on => ?_) fun j => ?_
  · rw [grown] at member
    rcases List.mem_cons.mp member with rfl | member
    · rcases List.mem_append.mp on with old | behind
      · exact values.written _ (.head _) ptr old
      · exact values.written g (.tail _ (List.mem_of_getElem? at_g)) ptr behind
    · rcases List.mem_or_eq_of_mem_set member with old | rfl
      · exact values.written _ (.tail _ old) ptr on
      · cases on
  · have := tally_set s.source j [] at_g
    rw [grown, tally_cons, tally_cons, List.map_append, List.count_append, here]
    simp only [List.map_nil, List.count_nil] at this
    show (s.taken.map Prod.snd).count j + _ + (if j = i then 0 else 0) = _ + _ + if j = i then 0 else 0
    omega

theorem Values.attach (values : Values s chain groups) (at_i : s.threads[i]? = some t) (here : t.pc = .link new tail)
    (at_g : groups[i]? = some g) (at_j : groups[j]? = some l) (apart : i ≠ j) (next : Nat → Option Ptr) :
    Values (s.moved { s with Next := next } i t.op (.swapTail new tail)) chain (join groups i j g l) := by
  refine values.relink at_i ⟨rfl, rfl⟩ (fun _ is => by cases is) (fun path member ptr on => ?_) fun k => ?_
  · rcases List.mem_cons.mp member with rfl | member
    · exact values.written _ (.head _) ptr on
    rcases List.mem_or_eq_of_mem_set member with member | rfl
    · rcases List.mem_or_eq_of_mem_set member with old | rfl
      · exact values.written _ (.tail _ old) ptr on
      · rcases List.mem_append.mp on with old | behind
        · exact values.written l (.tail _ (List.mem_of_getElem? at_j)) ptr old
        · exact values.written g (.tail _ (List.mem_of_getElem? at_g)) ptr behind
    · cases on
  · rw [tally_cons, tally_cons, tally_join s.source k at_g at_j apart, here]
    rfl

theorem Values.take (values : Values s (s.mHead :: first :: rest) groups) (at_i : s.threads[i]? = some t)
    (here : t.pc = .swapHead s.mHead first data) :
    Values (s.moved { s with mHead := first, taken := s.taken ++ [(i, s.writer first.address)] } i t.op (.free (.takeID s.mHead.address) data))
      (first :: rest) groups := by
  refine values.relink at_i ⟨rfl, rfl⟩ (fun _ is => by cases is) (fun path member ptr on => ?_) fun j => ?_
  · rcases List.mem_cons.mp member with rfl | other
    · exact values.written _ (.head _) ptr (.tail _ on)
    · exact values.written path (.tail _ other) ptr on
  · show ((s.taken ++ [(i, s.writer first.address)]).map Prod.snd).count j + tally s.source j (rest :: groups) + _ =
      _ + tally s.source j ((first :: rest) :: groups) + _
    rw [tally_cons, tally_cons, List.map_append, List.count_append, List.map_cons (l := rest), List.count_cons, here]
    have last : ([(i, s.writer first.address)].map Prod.snd).count j = if s.source first == j then 1 else 0 := List.count_singleton
    rw [last]
    show _ + _ + _ + (if j = i then 0 else 0) = _ + _ + if j = i then 0 else 0
    omega

theorem Values.call (values : Values s chain groups) (op : Op α) : Values (s.called op) chain (groups ++ [[]]) := by
  refine ⟨fun i t new at_i is => ?_, fun path member ptr on => ?_, fun j => ?_⟩
  · rcases at_append_one at_i with old | ⟨-, rfl⟩
    · obtain ⟨own, written⟩ := values.fresh i t new old is
      exact ⟨own, supplies_called written op⟩
    · cases op <;> cases is
  · rcases List.mem_append.mp (List.cons_append ▸ member : path ∈ (chain.tail :: groups) ++ [[]]) with old | last
    · exact supplies_called (values.written path old ptr on) op
    · obtain rfl := List.mem_singleton.mp last
      cases on
  · have before := values.once j
    have same : tally s.source j (chain.tail :: (groups ++ [[]])) = tally s.source j (chain.tail :: groups) :=
      tally_enter s.source j (chain.tail :: groups)
    show _ + tally s.source j (chain.tail :: (groups ++ [[]])) + ((s.threads ++ [⟨op, op.begin⟩])[j]?).elim 0 (fun t => t.pc.unlinked) =
      ((s.threads ++ [⟨op, op.begin⟩])[j]?).elim 0 (fun t => t.op.enqueues)
    rw [elim_append_one, elim_append_one, same]
    by_cases last : j = s.threads.length
    · rw [List.getElem?_eq_none (Nat.le_of_eq last.symm)] at before
      have : op.begin.unlinked = op.enqueues := by cases op <;> rfl
      simp only [if_pos last, Option.elim_none] at *
      omega
    · simp only [if_neg last]
      exact before

/-! ### What the calls return -/

theorem dequeued_of_acted {k : Nat} (dequeued : (s.acted u i t.op pc' r).Dequeued k data) :
    s.Dequeued k data ∨ k = i ∧ (pc'.holding = some data ∨ r = some (.dequeued data)) := by
  rcases dequeued with ⟨x, at_k, holds⟩ | member
  · rcases at_set at_k with ⟨rfl, rfl⟩ | ⟨-, at_k⟩
    · exact .inr ⟨rfl, .inl holds⟩
    · exact .inl (.inl ⟨x, at_k, holds⟩)
  · rcases List.mem_append.mp member with old | new
    · exact .inl (.inr old)
    · obtain ⟨r, rfl, is⟩ := Option.map_eq_some_iff.mp (Option.mem_toList.mp new)
      cases is
      exact .inr ⟨rfl, .inr rfl⟩

theorem dequeued_now (at_i : s.threads[i]? = some t) (u : Queue α) (has : pc'.holding = some data ∨ r = some (.dequeued data)) :
    (s.acted u i t.op pc' r).Dequeued i data := by
  rcases has with holds | rfl
  · exact .inl ⟨_, List.getElem?_set_self (List.getElem?_eq_some_iff.mp at_i).1, holds⟩
  · exact .inr (List.mem_append_right _ (.head _))

theorem dequeued_acted {k : Nat} (at_i : s.threads[i]? = some t) (u : Queue α) (dequeued : s.Dequeued k data)
    (kept : t.pc.holding = some data → pc'.holding = some data ∨ r = some (.dequeued data)) : (s.acted u i t.op pc' r).Dequeued k data := by
  rcases dequeued with ⟨x, at_k, holds⟩ | member
  · by_cases here : k = i
    · subst here
      obtain rfl := Option.some.inj (at_k.symm.trans at_i)
      exact dequeued_now at_i u (kept holds)
    · exact .inl ⟨x, (List.getElem?_set_ne (Ne.symm here)).trans at_k, holds⟩
  · exact .inr (List.mem_append_left _ member)

theorem Returns.still (returns : Returns s) (at_i : s.threads[i]? = some t) (taken : u.taken = s.taken)
    (same : ∀ data, pc'.holding = some data ∨ r = some (.dequeued data) ↔ t.pc.holding = some data) (untaken : pc'.untaken ≤ t.pc.untaken) :
    Returns (s.acted u i t.op pc' r) := by
  refine ⟨fun k data dequeued => ?_, fun x member => ?_, fun k => ?_⟩
  · have before : s.Dequeued k data := by
      rcases dequeued_of_acted dequeued with old | ⟨rfl, now⟩
      · exact old
      · exact .inl ⟨t, at_i, (same data).mp now⟩
    obtain ⟨j, member, supplies⟩ := returns.took k data before
    exact ⟨j, taken ▸ member, (supplies_moved at_i u pc').mpr supplies⟩
  · obtain ⟨data, supplies, dequeued⟩ := returns.kept x (taken ▸ member)
    exact ⟨data, (supplies_moved at_i u pc').mpr supplies, dequeued_acted at_i u dequeued (same data).mpr⟩
  · have before := returns.one k
    show (u.taken.map Prod.fst).count k + ((s.threads.set i ⟨t.op, pc'⟩)[k]?).elim 1 (fun t => t.pc.untaken) ≤ 1
    rw [elim_set at_i, taken]
    by_cases here : k = i
    · subst here
      rw [at_i] at before
      simp only [if_pos, Option.elim_some] at *
      omega
    · simp only [if_neg here]
      exact before

theorem Returns.take (returns : Returns s) (at_i : s.threads[i]? = some t) (here : t.pc = .swapHead s.mHead first data)
    (supplies : s.Supplies j data) :
    Returns (s.acted { s with mHead := first, taken := s.taken ++ [(i, j)] } i t.op (.free (.takeID s.mHead.address) data) none) := by
  have moved (k : Nat) (d : α) := @supplies_moved α s t i k d at_i { s with mHead := first, taken := s.taken ++ [(i, j)] }
    (.free (.takeID s.mHead.address) data)
  refine ⟨fun k d dequeued => ?_, fun x member => ?_, fun k => ?_⟩
  · rcases dequeued_of_acted dequeued with old | ⟨rfl, now⟩
    · obtain ⟨n, member, supplied⟩ := returns.took k d old
      exact ⟨n, List.mem_append_left _ member, (moved n d).mpr supplied⟩
    · obtain rfl : data = d := by
        rcases now with holds | returned
        · exact Option.some.inj holds
        · cases returned
      exact ⟨j, List.mem_append_right _ (.head _), (moved j data).mpr supplies⟩
  · rcases List.mem_append.mp member with old | last
    · obtain ⟨d, supplied, dequeued⟩ := returns.kept x old
      exact ⟨d, (moved x.2 d).mpr supplied, dequeued_acted at_i _ dequeued fun holds => by rw [here] at holds; cases holds⟩
    · obtain rfl := List.mem_singleton.mp last
      exact ⟨data, (moved j data).mpr supplies, dequeued_now at_i _ (.inl rfl)⟩
  · have before := returns.one k
    show ((s.taken ++ [(i, j)]).map Prod.fst).count k +
      ((s.threads.set i ⟨t.op, .free (.takeID s.mHead.address) data⟩)[k]?).elim 1 (fun t => t.pc.untaken) ≤ 1
    rw [elim_set at_i, List.map_append, List.count_append]
    have last : ([(i, j)].map Prod.fst).count k = if i = k then 1 else 0 := by
      rw [List.map_cons, List.map_nil, List.count_singleton]
      simp only [beq_iff_eq]
    rw [last]
    by_cases mine : k = i
    · subst mine
      have one : t.pc.untaken = 1 := by rw [here]; rfl
      rw [at_i, Option.elim_some, one] at before
      rw [if_pos rfl, if_pos rfl]
      exact before
    · rw [if_neg mine, if_neg (Ne.symm mine)]
      exact before

theorem Returns.call (returns : Returns s) (op : Op α) : Returns (s.called op) := by
  have holding : op.begin.holding = none := by cases op <;> rfl
  have called {k : Nat} {d : α} (dequeued : s.Dequeued k d) : (s.called op).Dequeued k d := by
    rcases dequeued with ⟨x, at_k, holds⟩ | member
    · have lt := (List.getElem?_eq_some_iff.mp at_k).1
      exact .inl ⟨x, (List.getElem?_append_left lt).trans at_k, holds⟩
    · exact .inr (List.mem_append_left _ member)
  refine ⟨fun k d dequeued => ?_, fun x member => ?_, fun k => ?_⟩
  · have before : s.Dequeued k d := by
      rcases dequeued with ⟨x, at_k, holds⟩ | member
      · rcases at_append_one at_k with old | ⟨-, rfl⟩
        · exact .inl ⟨x, old, holds⟩
        · rw [holding] at holds
          cases holds
      · rcases List.mem_append.mp member with old | last
        · exact .inr old
        · cases List.mem_singleton.mp last
    obtain ⟨j, member, supplies⟩ := returns.took k d before
    exact ⟨j, member, supplies_called supplies op⟩
  · obtain ⟨d, supplies, dequeued⟩ := returns.kept x member
    exact ⟨d, supplies_called supplies op, called dequeued⟩
  · have before := returns.one k
    show (s.taken.map Prod.fst).count k + ((s.threads ++ [⟨op, op.begin⟩])[k]?).elim 1 (fun t => t.pc.untaken) ≤ 1
    rw [elim_append_one]
    by_cases last : k = s.threads.length
    · have one : op.begin.untaken = 1 := by cases op <;> rfl
      rw [List.getElem?_eq_none (Nat.le_of_eq last.symm), Option.elim_none] at before
      rw [if_pos last, one]
      exact before
    · rw [if_neg last]
      exact before

theorem Values.init (data : Nat → α) : Values ({ Data := data } : Queue α) [⟨0, 0⟩] [] := by
  refine ⟨fun i t new at_i => ?_, fun path member ptr on => ?_, fun j => rfl⟩
  · cases at_i
  · obtain rfl := List.mem_singleton.mp member
    cases on

theorem Returns.init (data : Nat → α) : Returns ({ Data := data } : Queue α) := by
  refine ⟨fun i data dequeued => ?_, fun x member => ?_, fun i => Nat.le_refl _⟩
  · rcases dequeued with ⟨t, at_i, -⟩ | member
    · cases at_i
    · cases member
  · cases member

end WanNet.LockFreeQueue
