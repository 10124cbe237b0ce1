import WanNet.LockFreeQueue.Conservation
import WanNet.LockFreeQueue.Counting

/-!
`mCount` against the nodes whose `Enqueue` has returned.
-/

namespace WanNet.LockFreeQueue
open Transition Treiber ObjectPool Threads Chains Concurrent

variable {α : Type}

def Pc.ended : Pc α → Bool
  | .finished => true
  | _ => false

def Queue.ended (s : Queue α) (j : Nat) : Bool := (s.threads[j]?).elim false fun t => t.pc.ended

/-- A CAS on `Next` that succeeds is not on a node that an `Enqueue` has not linked. -/
def LinksQueued (s : Queue α) : Label α → Prop
  | .thread i => ∀ t ∈ s.threads[i]?, ∀ localMyTail ∈ t.pc.target, s.Next localMyTail.address = none →
      ∀ x ∈ s.threads, ∀ newTail ∈ x.pc.linking, newTail.address ≠ localMyTail.address
  | .call _ => True

instance (s : Queue α) (l : Label α) : Decidable (LinksQueued s l) :=
  match l with
  | .thread i => inferInstanceAs (Decidable (∀ t ∈ s.threads[i]?, ∀ localMyTail ∈ t.pc.target, s.Next localMyTail.address = none →
      ∀ x ∈ s.threads, ∀ newTail ∈ x.pc.linking, newTail.address ≠ localMyTail.address))
  | .call _ => .isTrue trivial

/-- The node behind `mHead`, where a call's CAS on `mHead` is about to succeed. -/
def Pc.taking (mHead : Ptr) : Pc α → Option Ptr
  | .swapHead localMyHead localMyHeadNext _ => if mHead = localMyHead then some localMyHeadNext else none
  | _ => none

/-- A CAS on `mHead` takes the value of an `Enqueue` that has raised `mCount`. -/
def TakesCounted (s : Queue α) : Label α → Prop
  | .thread i => ∀ t ∈ s.threads[i]?, ∀ first ∈ t.pc.taking s.mHead, s.ended (s.source first) = true
  | .call _ => True

instance (s : Queue α) (l : Label α) : Decidable (TakesCounted s l) :=
  match l with
  | .thread i => inferInstanceAs (Decidable (∀ t ∈ s.threads[i]?, ∀ first ∈ t.pc.taking s.mHead, s.ended (s.source first) = true))
  | .call _ => .isTrue trivial

/-- What the runs are under: the code raises `mCount` after it has linked the node, and does not check where it linked it. -/
def Prompt (s : Queue α) (l : Label α) : Prop := OneDequeuer s l ∧ LinksQueued s l ∧ TakesCounted s l ∧ CountFits s l

instance (s : Queue α) (l : Label α) : Decidable (Prompt s l) := inferInstanceAs (Decidable (_ ∧ _ ∧ _ ∧ _))

/-- `mCount` against the nodes behind `mHead` whose `Enqueue` has returned. -/
structure Tallied (s : Queue α) (after : List Ptr) : Prop where
  taken : ∀ x ∈ s.taken, s.ended x.2 = true
  count : s.mCount = after.countP (fun ptr => s.ended (s.source ptr)) + total (fun t => t.pc.undone) s.threads

variable {s u : Queue α} {chain chain' after : List Ptr} {groups groups' : List (List Ptr)} {list : List Ptr} {t : Thread α} {pc' : Pc α}
  {i j : Nat} {tr : List (Queue α × Label α)} {r : Option (Ret α)} {p q new first : Ptr} {data : α}

theorem ended_acted (at_i : s.threads[i]? = some t) (u : Queue α) (pc' : Pc α) (r : Option (Ret α)) (j : Nat) :
    (s.acted u i t.op pc' r).ended j = if j = i then pc'.ended else s.ended j := elim_set at_i _ j

theorem ended_of_at (at_i : s.threads[i]? = some t) : s.ended i = t.pc.ended := by
  unfold Queue.ended
  rw [at_i]
  rfl

theorem ended_same (at_i : s.threads[i]? = some t) (u : Queue α) (r : Option (Ret α)) (same : pc'.ended = t.pc.ended) (j : Nat) :
    (s.acted u i t.op pc' r).ended j = s.ended j := by
  rw [ended_acted at_i]
  split
  next here => rw [here, ended_of_at at_i, same]
  next => rfl

theorem ended_mono (at_i : s.threads[i]? = some t) (u : Queue α) (r : Option (Ret α)) (live : t.pc.ended = false) (ended : s.ended j = true) :
    (s.acted u i t.op pc' r).ended j = true := by
  rw [ended_acted at_i, if_neg]
  · exact ended
  rintro rfl
  rw [ended_of_at at_i, live] at ended
  cases ended

theorem written_of_linking {pc : Pc α} (linking : pc.linking = some new) : pc.written = some new := by
  cases pc with
  | readTail | link | readTailNext | helpTail => exact linking
  | _ => cases linking

theorem Orderly.leader {g : List Ptr} (orderly : Orderly s chain groups) (member : g ∈ groups) (on : p ∈ g) :
    ∃ (k : Nat) (x : Thread α), s.threads[k]? = some x ∧ x.pc.linking = some p := by
  obtain ⟨list, mem⟩ := orderly.memory
  obtain ⟨k, at_k⟩ := List.mem_iff_getElem?.mp member
  obtain ⟨x, at_x, front⟩ := mem.leader at_k
  have short := orderly.single g member
  obtain ⟨a, b, rfl⟩ := List.append_of_mem on
  rw [List.length_append, List.length_cons] at short
  rw [List.eq_nil_of_length_eq_zero (show a.length = 0 by omega)] at front
  exact ⟨k, x, at_x, front⟩

theorem linked_once (orderly : Orderly s chain groups) (values : Values s chain groups) (taken : ∀ x ∈ s.taken, s.ended x.2 = true)
    (runs : ∀ t ∈ s.threads, t.op.runs t.pc = true) (at_i : s.threads[i]? = some t) (linked : t.pc.uncounted = 1) :
    (chain.tail.map s.source).count i = 1 := by
  have once := values.once i
  have shape : t.pc.unlinked = 0 ∧ t.pc.ended = false ∧ t.pc.enqueuing = true ∧ t.pc.linking = none := by
    cases pc : t.pc with
    | swapTail | count => exact ⟨rfl, rfl, rfl, rfl⟩
    | _ =>
      rw [pc] at linked
      cases linked
  obtain ⟨unlinked, live, inside, linking⟩ := shape
  obtain ⟨data, op⟩ := enqueue_of_runs (runs t (List.mem_of_getElem? at_i)) inside
  have untaken : (s.taken.map Prod.snd).count i = 0 := by
    refine List.count_eq_zero.mpr fun member => ?_
    obtain ⟨x, member, is⟩ := List.mem_map.mp member
    have ended := taken x member
    rw [is, ended_of_at at_i, live] at ended
    cases ended
  have apart : tally s.source i groups = 0 := by
    by_contra some_there
    obtain ⟨g, member, ptr, on, is⟩ := exists_of_tally (Nat.pos_of_ne_zero some_there)
    obtain ⟨k, x, at_x, front⟩ := orderly.leader member on
    have own := (values.fresh k x ptr at_x (written_of_linking front)).1
    obtain rfl : k = i := own.symm.trans is
    obtain rfl := Option.some.inj (at_x.symm.trans at_i)
    rw [linking] at front
    cases front
  rw [at_i, Option.elim_some, Option.elim_some, unlinked, untaken, tally_cons, apart, op] at once
  simpa [Op.enqueues] using once

theorem Tallied.move (tallied : Tallied s after) (at_i : s.threads[i]? = some t) (live : t.pc.ended = false)
    (source : ∀ ptr ∈ after, u.source ptr = s.source ptr) (foreign : pc'.ended = true → ∀ ptr ∈ after, s.source ptr ≠ i)
    (taken : u.taken = s.taken) (count : u.mCount + t.pc.undone = s.mCount + pc'.undone) : Tallied (s.acted u i t.op pc' r) after := by
  refine ⟨fun x member => ended_mono at_i u r live (tallied.taken x (taken ▸ member)), ?_⟩
  have same : after.countP (fun ptr => (s.acted u i t.op pc' r).ended ((s.acted u i t.op pc' r).source ptr)) =
      after.countP fun ptr => s.ended (s.source ptr) := by
    refine List.countP_congr fun ptr member => ?_
    show (s.acted u i t.op pc' r).ended (u.source ptr) = true ↔ _
    rw [source ptr member, ended_acted at_i]
    split
    next here =>
      rw [here, ended_of_at at_i, live]
      exact ⟨fun ended => absurd here (foreign ended ptr member), fun ended => by cases ended⟩
    next => exact Iff.rfl
  have change := total_set (w := fun t : Thread α => t.pc.undone) (b := ⟨t.op, pc'⟩) at_i
  have before := tallied.count
  rw [same]
  show u.mCount = _ + total (fun t => t.pc.undone) (s.threads.set i ⟨t.op, pc'⟩)
  simp only at *
  omega

theorem Values.foreign (values : Values s chain groups) (at_i : s.threads[i]? = some t) (op : t.op = .tryDequeue) :
    ∀ ptr ∈ chain.tail, s.source ptr ≠ i := by
  rintro ptr member rfl
  have written : s.Supplies (s.source ptr) (s.Data ptr.address) := values.written _ (.head _) ptr member
  unfold Queue.Supplies at written
  rw [at_i, Option.map_some, op] at written
  cases written

theorem Tallied.raise (tallied : Tallied s after) (at_i : s.threads[i]? = some t) (here : t.pc = .count)
    (once : (after.map s.source).count i = 1) (fits : s.mCount + 1 < 2 ^ 32) :
    Tallied (s.acted { s with mCount := inc32 s.mCount } i t.op .finished r) after := by
  have live : t.pc.ended = false := by rw [here]; rfl
  refine ⟨fun x member => ended_mono at_i _ r live (tallied.taken x member), ?_⟩
  have more : after.countP (fun ptr => (s.acted { s with mCount := inc32 s.mCount } i t.op .finished r).ended (s.source ptr)) =
      after.countP (fun ptr => s.ended (s.source ptr)) + (after.map s.source).count i := by
    refine countP_add (fun ptr _ other => ?_) fun ptr _ own => ?_
    · rw [ended_acted at_i, if_neg other]
    · rw [ended_acted at_i, if_pos own, own, ended_of_at at_i]
      exact ⟨live, rfl⟩
  have change := total_set (w := fun t : Thread α => t.pc.undone) (b := ⟨t.op, .finished⟩) at_i
  have before := tallied.2
  have none : t.pc.undone = 0 ∧ (Pc.finished : Pc α).undone = 0 := by rw [here]; exact ⟨rfl, rfl⟩
  show inc32 s.mCount = after.countP (fun ptr => (s.acted { s with mCount := inc32 s.mCount } i t.op .finished r).ended (s.source ptr)) +
    total (fun t => t.pc.undone) (s.threads.set i ⟨t.op, .finished⟩)
  rw [more, once, inc32_eq fits]
  simp only at *
  omega

/-- A node is linked whose `Enqueue` has not returned. -/
theorem Tallied.snoc (tallied : Tallied s after) (fresh : s.ended (s.source new) = false) : Tallied s (after ++ [new]) := by
  refine ⟨tallied.taken, ?_⟩
  rw [List.countP_append, List.countP_singleton, fresh]
  exact tallied.count

theorem Tallied.take (tallied : Tallied s (first :: after)) (at_i : s.threads[i]? = some t) (here : t.pc = .swapHead s.mHead first data)
    (counted : s.ended (s.source first) = true) :
    Tallied (s.acted { s with mHead := first, taken := s.taken ++ [(i, s.writer first.address)] } i t.op
      (.free (.takeID s.mHead.address) data) none) after := by
  have same (j : Nat) : (s.acted { s with mHead := first, taken := s.taken ++ [(i, s.writer first.address)] } i t.op
      (.free (.takeID s.mHead.address) data) none).ended j = s.ended j := ended_same at_i _ none (by rw [here]; rfl) j
  refine ⟨fun x member => ?_, ?_⟩
  · rw [same]
    rcases List.mem_append.mp member with old | last
    · exact tallied.taken x old
    · rw [List.mem_singleton.mp last]
      exact counted
  · have change := total_set (w := fun t : Thread α => t.pc.undone) (b := ⟨t.op, .free (.takeID s.mHead.address) data⟩) at_i
    have before := tallied.count
    have undone : t.pc.undone = 0 ∧ (Pc.free (.takeID s.mHead.address) data : Pc α).undone = 1 := by rw [here]; exact ⟨rfl, rfl⟩
    rw [List.countP_cons, if_pos counted] at before
    simp only [same]
    show s.mCount = after.countP (fun ptr => s.ended (s.source ptr)) + total (fun t => t.pc.undone) (s.threads.set i _)
    simp only at *
    omega

theorem Tallied.step (tallied : Tallied s chain.tail) (orderly : Orderly s chain groups) (values : Values s chain groups)
    (runs : ∀ t ∈ s.threads, t.op.runs t.pc = true) (at_i : s.threads[i]? = some t) (moved : Moves s i t.op t.pc u pc' r)
    (plain : Plain s t.pc pc' chain chain') (takes : ∀ first ∈ t.pc.taking s.mHead, s.ended (s.source first) = true)
    (fits : t.pc.counts = true → s.mCount + 1 < 2 ^ 32) : Tallied (s.acted u i t.op pc' r) chain'.tail := by
  obtain ⟨list, mem⟩ := orderly.memory
  have foreign (inside : t.pc.dequeuing = true) := values.foreign at_i (tryDequeue_of_runs (runs t (List.mem_of_getElem? at_i)) inside)
  have once (linked : t.pc.uncounted = 1) := linked_once orderly values tallied.taken runs at_i linked
  obtain ⟨op, pc⟩ := t
  cases plain with
  | append new tail p l here there is same =>
    obtain rfl : pc = .link new tail := here
    subst there
    have own : s.source new = i := (values.fresh i _ new at_i rfl).1
    cases moved
    rw [List.tail_append_of_ne_nil (by rw [is]; simp)]
    have linked : Tallied (s.acted { s with Next := fun a => if a = tail.address then some new else s.Next a } i op
        (.swapTail new tail) none) chain.tail := tallied.move at_i rfl (fun _ _ => rfl) (fun ended => by cases ended) rfl rfl
    refine linked.snoc ?_
    show Queue.ended _ (s.source new) = false
    rw [own, ended_acted at_i, if_pos rfl]
    rfl
  | take first rest outData here there is data =>
    obtain rfl : pc = .swapHead s.mHead first outData := here
    subst there is
    cases moved
    exact tallied.take at_i rfl (takes first (if_pos rfl))
  | none links taken =>
    cases moved with
    | writeData new =>
      refine tallied.move at_i rfl (fun ptr member => if_neg fun same => ?_) (fun ended => by cases ended) rfl rfl
      have unlisted := mem.unlisted at_i (a := new.address) rfl
      have := tally_of_mem_head Ptr.address groups (List.mem_of_mem_tail member)
      rw [same] at this
      omega
    | count => exact tallied.raise at_i rfl (once rfl) (fits rfl)
    | uncount outData =>
      have pos := orderly.counted.pos _ (List.mem_of_getElem? at_i) rfl
      refine tallied.move at_i rfl (fun _ _ => rfl) (fun _ => foreign rfl) rfl ?_
      show dec32 s.mCount + 1 = s.mCount + 0
      rw [dec32_eq pos orderly.counted.word]
      omega
    | testEmpty | retestEmpty => exact tallied.move at_i rfl (fun _ _ => rfl) (fun _ => foreign rfl) rfl rfl
    | link new tail free => exact absurd free (links new tail rfl)
    | swapHead first outData => exact absurd rfl (taken first outData)
    | _ => exact tallied.move at_i rfl (fun _ _ => rfl) (fun ended => by cases ended) rfl rfl

end WanNet.LockFreeQueue
