import WanNet.Lib.Chains
import WanNet.LockFreeQueue.Model
import WanNet.ObjectPool.FreeList

/-!
The nodes of a `LockFreeQueue`: each is behind `mHead`, behind a node that an `Enqueue` is about to link,
on the free list of `mNodePool`, or in the hands of one thread.
-/

namespace WanNet.LockFreeQueue
open Transition Treiber ObjectPool Threads Chains Concurrent

variable {α : Type}

def Pc.linking : Pc α → Option Ptr
  | .readTail newTail | .link newTail _ | .readTailNext newTail _ | .helpTail newTail _ _ => some newTail
  | _ => none

/-- The node that a call has not cleared `Next` of. -/
def Pc.node : Pc α → Option Nat
  | .writeData newTail | .writeNext newTail => some newTail.address
  | _ => none

/-- The tag of the pointer that a call has not made yet, or not cleared `Next` of. -/
def Pc.tag : Pc α → Option Nat
  | .alloc localMyId _ => some localMyId
  | .writeData newTail | .writeNext newTail => some newTail.tag
  | _ => none

def Pc.poolPart : Pc α → Part
  | .alloc _ pc => pc.part
  | .free pc _ => pc.part
  | _ => .idle

def Pc.owns (a : Nat) (pc : Pc α) : Nat := if pc.node = some a then 1 else 0

def Pc.takes (t : Nat) (pc : Pc α) : Nat := if pc.tag = some t then 1 else 0

def Queue.poolParts (s : Queue α) : List Part := s.threads.map fun t => t.pc.poolPart

def Queue.tags (s : Queue α) (paths : List (List Ptr)) (t : Nat) : Nat :=
  tally Ptr.tag t paths + total (fun x => x.pc.takes t) s.threads

/-- The tag was given out, and its node was dequeued. -/
def Queue.Gone (s : Queue α) (paths : List (List Ptr)) (t : Nat) : Prop := s.tags paths t = 0 ∧ t ≤ s.mID

/-- The first of the lists is the queue, each other one starts with the node that a thread is about to link. -/
structure Memory (s : Queue α) (paths : List (List Ptr)) (list : List Ptr) : Prop where
  heads : paths.map List.head? = some s.mHead :: s.threads.map fun t => t.pc.linking
  chained : Paths s.Next paths
  owned : ∀ a, tally Ptr.address a paths + total (fun t => t.pc.owns a) s.threads + owners list s.poolParts a = made s.mNodePool a
  tagged : ∀ t, s.tags paths t ≤ 1 ∧ (0 < s.tags paths t → t ≤ s.mID)
  pool : Ordered s.mNodePool.mTop s.mNodePool.Next s.poolParts list
  poolTagged : Tagged (issued id s.mNodePool.mID) s.mNodePool.Next s.poolParts list

variable {s u v : Queue α} {paths paths' : List (List Ptr)} {list list' g l : List Ptr} {t : Thread α} {pc' : Pc α} {i j k : Nat}
  {new p : Ptr}

abbrev Queue.moved (s u : Queue α) (i : Nat) (op : Op α) (pc : Pc α) : Queue α :=
  { u with threads := s.threads.set i ⟨op, pc⟩ }

abbrev Queue.acted (s u : Queue α) (i : Nat) (op : Op α) (pc : Pc α) (r : Option (Ret α)) : Queue α :=
  { s.moved u i op pc with history := s.history ++ (r.map (Event.response i)).toList }

theorem step_thread (h : step s (.thread i) = some v) : ∃ t u pc' r, s.threads[i]? = some t ∧ Moves s i t.op t.pc u pc' r ∧
    v = s.acted u i t.op pc' r := by
  obtain ⟨t, at_i, h⟩ := Option.bind_eq_some_iff.mp h
  obtain ⟨⟨u, pc', r⟩, moved, rfl⟩ := Option.map_eq_some_iff.mp h
  exact ⟨t, u, pc', r, at_i, next_moves moved, rfl⟩

theorem at_poolPart (at_i : s.threads[i]? = some t) : s.poolParts[i]? = some t.pc.poolPart := by
  simp [Queue.poolParts, at_i]

theorem poolParts_moved (s u : Queue α) (i : Nat) (op : Op α) (pc' : Pc α) :
    (s.moved u i op pc').poolParts = s.poolParts.set i pc'.poolPart := List.map_set

theorem Pc.owns_of_none (pc : Pc α) (none : pc.node = none) (a : Nat) : pc.owns a = 0 := by simp [Pc.owns, none]

theorem Pc.takes_of_none (pc : Pc α) (none : pc.tag = none) (t : Nat) : pc.takes t = 0 := by simp [Pc.takes, none]

theorem Memory.one (mem : Memory s paths list) (a : Nat) :
    tally Ptr.address a paths ≤ 1 ∧ owners list s.poolParts a ≤ made s.mNodePool a := by
  have := mem.owned a
  have := made_le_one s.mNodePool a
  omega

theorem Memory.unlisted (mem : Memory s paths list) (at_i : s.threads[i]? = some t) (own : t.pc.node = some a) :
    tally Ptr.address a paths = 0 := by
  have := mem.owned a
  have := made_le_one s.mNodePool a
  have here : t.pc.owns a = 1 := if_pos own
  have held := le_total (w := fun t : Thread α => t.pc.owns a) (List.mem_of_getElem? at_i)
  omega

theorem Memory.group (mem : Memory s paths list) (at_i : s.threads[i]? = some t) :
    ∃ g, paths[i + 1]? = some g ∧ g.head? = t.pc.linking := by
  have there : (paths.map List.head?)[i + 1]? = some t.pc.linking := by rw [mem.heads]; simp [at_i]
  rw [List.getElem?_map] at there
  exact Option.map_eq_some_iff.mp there

theorem Memory.leader (mem : Memory s (chain :: groups) list) (at_i : groups[i]? = some g) : ∃ t, s.threads[i]? = some t ∧ t.pc.linking = g.head? := by
  have heads := congrArg (fun l => l[i + 1]?) mem.heads
  simp only [List.map_cons, List.getElem?_cons_succ, List.getElem?_map, at_i, Option.map_some] at heads
  exact Option.map_eq_some_iff.mp heads.symm

theorem Memory.front (mem : Memory s (chain :: groups) list) : chain.head? = some s.mHead :=
  (List.cons.inj mem.heads).1

theorem tags_set (at_i : s.threads[i]? = some t) (u : Queue α) (paths paths' : List (List Ptr)) (op : Op α) (pc' : Pc α) (k : Nat) :
    (s.moved u i op pc').tags paths' k + tally Ptr.tag k paths + t.pc.takes k = s.tags paths k + tally Ptr.tag k paths' + pc'.takes k := by
  have := total_set (w := fun x : Thread α => x.pc.takes k) (b := ⟨op, pc'⟩) at_i
  simp only [Queue.tags] at *
  omega

theorem tags_moved (at_i : s.threads[i]? = some t)
    (fewer : tally Ptr.tag k paths' + pc'.takes k ≤ tally Ptr.tag k paths + t.pc.takes k) (op : Op α) :
    (s.moved u i op pc').tags paths' k ≤ s.tags paths k := by
  have := tags_set at_i u paths paths' op pc' k
  omega

theorem Memory.move (mem : Memory s paths list) (at_i : s.threads[i]? = some t)
    (heads : paths'.map List.head? = some u.mHead :: (s.threads.map fun t => t.pc.linking).set i pc'.linking)
    (chained : Paths u.Next paths')
    (owned : ∀ a, tally Ptr.address a paths' + pc'.owns a + owners list' (s.poolParts.set i pc'.poolPart) a + made s.mNodePool a =
      tally Ptr.address a paths + t.pc.owns a + owners list s.poolParts a + made u.mNodePool a)
    (tagged : ∀ k, (s.moved u i t.op pc').tags paths' k ≤ 1 ∧ (0 < (s.moved u i t.op pc').tags paths' k → k ≤ u.mID))
    (pool : Ordered u.mNodePool.mTop u.mNodePool.Next (s.poolParts.set i pc'.poolPart) list')
    (poolTagged : Tagged (issued id u.mNodePool.mID) u.mNodePool.Next (s.poolParts.set i pc'.poolPart) list') :
    Memory (s.moved u i t.op pc') paths' list' := by
  have parts := poolParts_moved s u i t.op pc'
  refine ⟨?_, chained, fun a => ?_, tagged, ?_, ?_⟩
  · rw [heads, List.map_set]
  · have := total_set (w := fun t : Thread α => t.pc.owns a) (b := ⟨t.op, pc'⟩) at_i
    have := mem.owned a
    have := owned a
    rw [parts]
    simp only at *
    omega
  · rw [parts]
    exact pool
  · rw [parts]
    exact poolTagged

/-- A step that leaves `mNodePool` alone, and takes no tag. -/
theorem Memory.relink (mem : Memory s paths list) (at_i : s.threads[i]? = some t) (same : u.mID = s.mID ∧ u.mNodePool = s.mNodePool)
    (idle : t.pc.poolPart = .idle ∧ pc'.poolPart = .idle)
    (heads : paths'.map List.head? = some u.mHead :: (s.threads.map fun t => t.pc.linking).set i pc'.linking)
    (chained : Paths u.Next paths') (owned : ∀ a, tally Ptr.address a paths' + pc'.owns a = tally Ptr.address a paths + t.pc.owns a)
    (fewer : ∀ k, tally Ptr.tag k paths' + pc'.takes k ≤ tally Ptr.tag k paths + t.pc.takes k) :
    Memory (s.moved u i t.op pc') paths' list := by
  obtain ⟨mID, mNodePool⟩ := same
  have away : s.poolParts.set i pc'.poolPart = s.poolParts := by rw [idle.2, ← idle.1, set_same (at_poolPart at_i)]
  refine mem.move at_i heads chained (fun a => ?_) (fun k => ?_) ?_ ?_
  · have := owned a
    rw [away, mNodePool]
    omega
  · have less := tags_moved (u := u) at_i (fewer k) t.op
    have := mem.tagged k
    rw [mID]
    exact ⟨by omega, fun pos => this.2 (by omega)⟩
  · rw [away, mNodePool]
    exact mem.pool
  · rw [away, mNodePool]
    exact mem.poolTagged

theorem Memory.heads_still (mem : Memory s paths list) (at_i : s.threads[i]? = some t) (head : u.mHead = s.mHead)
    (linking : pc'.linking = t.pc.linking) :
    paths.map List.head? = some u.mHead :: (s.threads.map fun t => t.pc.linking).set i pc'.linking := by
  have here : (s.threads.map fun t => t.pc.linking)[i]? = some pc'.linking := by rw [List.getElem?_map, at_i, linking]; rfl
  rw [set_same here, head, mem.heads]

/-- A step that links, clears and moves no node. -/
theorem Memory.still (mem : Memory s paths list) (at_i : s.threads[i]? = some t)
    (same : u.mHead = s.mHead ∧ u.mID = s.mID ∧ u.mNodePool = s.mNodePool ∧ u.Next = s.Next)
    (idle : t.pc.poolPart = .idle ∧ pc'.poolPart = .idle)
    (kept : pc'.linking = t.pc.linking ∧ pc'.node = t.pc.node ∧ pc'.tag = t.pc.tag) : Memory (s.moved u i t.op pc') paths list := by
  obtain ⟨mHead, mID, mNodePool, Next⟩ := same
  obtain ⟨linking, node, tag⟩ := kept
  refine mem.relink at_i ⟨mID, mNodePool⟩ idle (mem.heads_still at_i mHead linking) (Next ▸ mem.chained) (fun a => ?_) fun k => ?_
  · simp only [Pc.owns, node]
  · simp only [Pc.takes, tag]
    exact Nat.le_refl _

/-- A step of `Alloc` or `Free`, which may hand its node over. -/
theorem Memory.pool_step {pool : Pool} {part : Part} {up down : Nat} (mem : Memory s paths list) (at_i : s.threads[i]? = some t)
    (steps : Steps s.mNodePool pool s.poolParts list i part up down list')
    (tagged : Tagged (issued id pool.mID) pool.Next (s.poolParts.set i part) list')
    (kept : pc'.linking = t.pc.linking ∧ pc'.tag = t.pc.tag ∧ t.pc.node = none)
    (same : pc'.poolPart = part ∧ pc'.node = none ∨ part.new = none ∧ pc'.poolPart = .idle ∧ part.node = pc'.node) :
    Memory (s.moved { s with mNodePool := pool } i t.op pc') paths list' := by
  obtain ⟨linking, tag, empty⟩ := kept
  have heads := mem.heads_still (u := { s with mNodePool := pool }) at_i rfl linking
  have none (a : Nat) : t.pc.owns a = 0 := t.pc.owns_of_none empty a
  have fewer (k : Nat) : tally Ptr.tag k paths + pc'.takes k ≤ tally Ptr.tag k paths + t.pc.takes k := by
    simp only [Pc.takes, tag]
    exact Nat.le_refl _
  have tags (k : Nat) := tags_moved (u := { s with mNodePool := pool }) at_i (fewer k) t.op
  have taken (k : Nat) : (s.moved { s with mNodePool := pool } i t.op pc').tags paths k ≤ 1 ∧
      (0 < (s.moved { s with mNodePool := pool } i t.op pc').tags paths k → k ≤ s.mID) := by
    have := tags k
    have := mem.tagged k
    exact ⟨by omega, fun pos => this.2 (by omega)⟩
  rcases same with ⟨poolPart, node⟩ | ⟨without, poolPart, node⟩
  · refine mem.move at_i heads mem.chained (fun a => ?_) taken (poolPart ▸ steps.ordered) (poolPart ▸ tagged)
    have := steps.owned a
    have := pc'.owns_of_none node a
    rw [poolPart, none]
    show _ = _ + made pool a
    omega
  · have twice : s.poolParts.set i pc'.poolPart = (s.poolParts.set i part).set i .idle := by rw [poolPart, List.set_set]
    have lt := (List.getElem?_eq_some_iff.mp (at_poolPart at_i)).1
    have at_part : (s.poolParts.set i part)[i]? = some part := List.getElem?_set_self lt
    refine mem.move at_i heads mem.chained (fun a => ?_) taken ?_ ?_
    · have given := owners_set list' a at_part .idle
      have := steps.owned a
      have : holds a Part.idle = 0 := rfl
      have : pc'.owns a = holds a part := by simp only [Pc.owns, holds, node]
      rw [twice, none]
      show _ = _ + made pool a
      omega
    · rw [twice]
      exact steps.ordered.release _ rfl
    · rw [twice]
      exact tagged.release at_part without _ ⟨rfl, rfl⟩

theorem Memory.alloc (mem : Memory s paths list) (at_i : s.threads[i]? = some t) (here : t.pc = .alloc localMyId pc)
    (moved : Moves s i t.op t.pc u pc' r) : ∃ list', Memory (s.moved u i t.op pc') paths list' := by
  have at_pool : s.poolParts[i]? = some pc.part := by rw [at_poolPart at_i, here]; rfl
  have one (a : Nat) := (mem.one a).2
  obtain ⟨list', steps, tagged⟩ := alloc_steps id mem.pool one at_pool (current_of_tagged mem.pool mem.poolTagged at_pool)
  refine ⟨list', ?_⟩
  rw [here] at moved
  cases moved with
  | alloc _ _ pc'' pool is =>
    rw [is] at steps tagged
    exact mem.pool_step at_i steps (tagged mem.poolTagged) (by rw [here]; exact ⟨rfl, rfl, rfl⟩) (.inl ⟨rfl, rfl⟩)
  | allocated _ _ newNode pool is =>
    rw [is] at steps tagged
    exact mem.pool_step at_i steps (tagged mem.poolTagged) (by rw [here]; exact ⟨rfl, rfl, rfl⟩) (.inr ⟨rfl, rfl, rfl⟩)

theorem Memory.free (mem : Memory s paths list) (at_i : s.threads[i]? = some t) (here : t.pc = .free pc outData)
    (moved : Moves s i t.op t.pc u pc' r) : ∃ list', Memory (s.moved u i t.op pc') paths list' := by
  have at_pool : s.poolParts[i]? = some pc.part := by rw [at_poolPart at_i, here]; rfl
  have one (a : Nat) := (mem.one a).2
  obtain ⟨list', steps, tagged⟩ := free_steps id mem.pool one at_pool
  have tagged := tagged Function.injective_id mem.poolTagged
  refine ⟨list', ?_⟩
  rw [here] at moved
  cases moved with
  | free _ pc'' _ pool is | freed _ _ pool is =>
    rw [is] at steps tagged
    exact mem.pool_step at_i steps tagged (by rw [here]; exact ⟨rfl, rfl, rfl⟩) (.inl ⟨rfl, rfl⟩)

theorem Memory.takeID (mem : Memory s paths list) (at_i : s.threads[i]? = some t) (here : t.pc = .takeID) :
    Memory (s.moved { s with mID := s.mID + 1 } i t.op (.alloc (s.mID + 1) .readTop)) paths list := by
  have at_pool := at_poolPart at_i
  rw [here] at at_pool
  have away : s.poolParts.set i .idle = s.poolParts := set_same at_pool
  have none (a : Nat) : t.pc.owns a = 0 := t.pc.owns_of_none (by rw [here]; rfl) a
  refine mem.move at_i (mem.heads_still at_i rfl (by rw [here]; rfl)) mem.chained (fun a => ?_) (fun k => ?_) ?_ ?_
  · rw [none]
    show _ + 0 + owners list (s.poolParts.set i .idle) a + _ = _
    rw [away]
  · have taken := total_set (w := fun x : Thread α => x.pc.takes k) (b := ⟨t.op, .alloc (s.mID + 1) .readTop⟩) at_i
    have before : t.pc.takes k = 0 := t.pc.takes_of_none (by rw [here]; rfl) k
    have behind : (Pc.alloc (s.mID + 1) .readTop : Pc α).takes k = if s.mID + 1 = k then 1 else 0 := by simp [Pc.takes, Pc.tag]
    have := mem.tagged k
    simp only [Queue.tags] at *
    split at behind <;> refine ⟨by omega, fun pos => by omega⟩
  · show Ordered _ _ (s.poolParts.set i .idle) _
    rw [away]
    exact mem.pool
  · show Tagged _ _ (s.poolParts.set i .idle) _
    rw [away]
    exact mem.poolTagged

theorem Memory.empty (mem : Memory s paths list) (at_i : s.threads[i]? = some t) (none : t.pc.linking = none) : paths[i + 1]? = some [] := by
  obtain ⟨g, at_g, front⟩ := mem.group at_i
  rw [none] at front
  rw [at_g, List.head?_eq_none_iff.mp front]

theorem Memory.cleared_tags (mem : Memory s paths list) (at_i : s.threads[i]? = some t) (here : t.pc = .writeNext new) (k : Nat) :
    tally Ptr.tag k (paths.set (i + 1) [new]) = tally Ptr.tag k paths + t.pc.takes k := by
  have := tally_set Ptr.tag k [new] (mem.empty at_i (by rw [here]; rfl))
  have : (Pc.writeNext new : Pc α).takes k = if new.tag = k then 1 else 0 := by simp [Pc.takes, Pc.tag]
  simp only [List.map_cons, List.map_nil, List.count_singleton, List.count_nil, beq_iff_eq] at *
  rw [here]
  omega

/-- A node's `Next` is cleared: the thread has a list of one node. -/
theorem Memory.writeNext (mem : Memory s paths list) (at_i : s.threads[i]? = some t) (here : t.pc = .writeNext new) :
    Memory (s.moved { s with Next := fun a => if a = new.address then none else s.Next a } i t.op (.readTail new))
      (paths.set (i + 1) [new]) list := by
  have unlisted := mem.unlisted at_i (a := new.address) (by rw [here]; rfl)
  refine mem.relink at_i ⟨rfl, rfl⟩ ⟨by rw [here]; rfl, rfl⟩ ?_ ?_ (fun a => ?_) fun k => ?_
  · rw [List.map_set, mem.heads]
    rfl
  · refine Paths.set ?_ ⟨rfl, if_pos rfl⟩
    refine mem.chained.congr fun path member p on => if_neg fun same => ?_
    have := tally_of_mem Ptr.address member on
    rw [same] at this
    omega
  · have := tally_set Ptr.address a [new] (mem.empty at_i (by rw [here]; rfl))
    have : (Pc.writeNext new : Pc α).owns a = if new.address = a then 1 else 0 := by simp [Pc.owns, Pc.node]
    have : (Pc.readTail new : Pc α).owns a = 0 := rfl
    simp only [List.map_cons, List.map_nil, List.count_singleton, List.count_nil, beq_iff_eq] at *
    rw [here]
    omega
  · exact Nat.le_of_eq (mem.cleared_tags at_i here k)

/-- The CAS on `Next` puts the thread's list behind another one. -/
theorem Memory.link (mem : Memory s paths list) (at_i : s.threads[i]? = some t) (here : t.pc = .link new tail)
    (at_g : paths[i + 1]? = some (new :: g)) (at_j : paths[j]? = some (l ++ [p])) (apart : i + 1 ≠ j) (is : p.address = tail.address) :
    Memory (s.moved { s with Next := fun a => if a = tail.address then some new else s.Next a } i t.op (.swapTail new tail))
      (join paths (i + 1) j (new :: g) (l ++ [p])) list := by
  refine mem.relink at_i ⟨rfl, rfl⟩ ⟨by rw [here]; rfl, rfl⟩ ?_ ?_ (fun a => ?_) fun k => ?_
  · have front : (l ++ [p] ++ new :: g).head? = (l ++ [p]).head? := by cases l <;> rfl
    have at_head : (paths.map List.head?)[j]? = some (l ++ [p] ++ new :: g).head? := by rw [List.getElem?_map, at_j, front]; rfl
    rw [join, List.map_set, List.map_set, set_same at_head, mem.heads]
    rfl
  · exact mem.chained.join (fun a => (mem.one a).1) at_g at_j apart (if_pos is) fun a other => if_neg (is ▸ other)
  · rw [tally_join _ _ at_g at_j apart, here]
    rfl
  · rw [tally_join _ _ at_g at_j apart, here]
    exact Nat.le_refl _

/-- The CAS on `mHead` takes the first node off the queue, for `Free`. -/
theorem Memory.take (mem : Memory s ((head :: first :: rest) :: groups) list) (at_i : s.threads[i]? = some t)
    (here : t.pc = .swapHead head first outData) (taken : List (Nat × Nat)) :
    Memory (s.moved { s with mHead := first, taken := taken } i t.op (.free (.takeID head.address) outData))
      ((first :: rest) :: groups) list := by
  have at_pool := at_poolPart at_i
  rw [here] at at_pool
  have linking : (s.threads.map fun t => t.pc.linking)[i]? = some none := by
    rw [List.getElem?_map, at_i]
    show some t.pc.linking = some none
    rw [here]
    rfl
  have fewer (k : Nat) : tally Ptr.tag k ((first :: rest) :: groups) ≤ tally Ptr.tag k ((head :: first :: rest) :: groups) := by
    rw [tally_cons, tally_cons, List.map_cons (l := first :: rest), List.count_cons]
    omega
  refine mem.move at_i ?_ ?_ (fun a => ?_) (fun k => ?_) (mem.pool.release _ rfl) (mem.poolTagged.release at_pool rfl _ ⟨rfl, rfl⟩)
  · show _ = some first :: (s.threads.map fun t => t.pc.linking).set i none
    rw [set_same linking]
    exact congrArg (some first :: ·) (List.cons.inj mem.heads).2
  · intro path member
    rcases List.mem_cons.mp member with rfl | other
    · have whole := mem.chained _ (.head _)
      exact ⟨rfl, whole.2.2⟩
    · exact mem.chained path (.tail _ other)
  · have given := owners_set list a at_pool (.owns head.address)
    have : holds a (.owns head.address) = if head.address = a then 1 else 0 := by simp [holds, Part.node]
    have : holds a (Pc.swapHead head first outData : Pc α).poolPart = 0 := rfl
    have : t.pc.owns a = 0 := t.pc.owns_of_none (by rw [here]; rfl) a
    have : (Pc.free (.takeID head.address) outData : Pc α).owns a = 0 := rfl
    rw [tally_cons, tally_cons, List.map_cons (l := first :: rest), List.count_cons, beq_eq_decide]
    simp only [decide_eq_true_eq]
    show _ + owners list (s.poolParts.set i (.owns head.address)) a + made s.mNodePool a = _ + made s.mNodePool a
    omega
  · have less : (s.moved { s with mHead := first, taken := taken } i t.op (.free (.takeID head.address) outData)).tags
        ((first :: rest) :: groups) k ≤ s.tags ((head :: first :: rest) :: groups) k := by
      refine tags_moved at_i ?_ t.op
      rw [here]
      exact fewer k
    have := mem.tagged k
    exact ⟨by omega, fun pos => this.2 (by omega)⟩

theorem Op.begin_idle (op : Op α) :
    op.begin.linking = none ∧ op.begin.node = none ∧ op.begin.tag = none ∧ op.begin.poolPart = .idle := by
  cases op <;> exact ⟨rfl, rfl, rfl, rfl⟩

abbrev Queue.called (s : Queue α) (op : Op α) : Queue α :=
  { s with threads := s.threads ++ [⟨op, op.begin⟩], history := s.history ++ [.invoke s.threads.length op] }

theorem tags_called (s : Queue α) (paths : List (List Ptr)) (op : Op α) (k : Nat) : (s.called op).tags (paths ++ [[]]) k = s.tags paths k := by
  have none := op.begin.takes_of_none op.begin_idle.2.2.1 k
  simp only [Queue.tags, tally_enter, total_append_one, none, Nat.add_zero]

theorem Memory.call (mem : Memory s paths list) (op : Op α) : Memory (s.called op) (paths ++ [[]]) list := by
  obtain ⟨linking, node, -, poolPart⟩ := op.begin_idle
  have poolParts : (s.called op).poolParts = s.poolParts ++ [.idle] := by simp [Queue.poolParts, poolPart]
  refine ⟨?_, ?_, fun a => ?_, fun k => ?_, ?_, ?_⟩
  · rw [List.map_append, mem.heads, List.map_append]
    simp [linking]
  · intro path member
    rcases List.mem_append.mp member with old | new
    · exact mem.chained path old
    · obtain rfl := List.mem_singleton.mp new
      rfl
  · have := mem.owned a
    have none := op.begin.owns_of_none node a
    rw [poolParts, owners_idle, total_append_one, none, tally_enter]
    exact this
  · rw [tags_called]
    exact mem.tagged k
  · rw [poolParts]
    exact mem.pool.enter
  · rw [poolParts]
    exact mem.poolTagged.enter

theorem Memory.recorded (mem : Memory s paths list) (history : List (Event (Op α) (Ret α))) :
    Memory { s with history := history } paths list :=
  ⟨mem.heads, mem.chained, mem.owned, mem.tagged, mem.pool, mem.poolTagged⟩

theorem Memory.init (data : Nat → α) : Memory ({ Data := data } : Queue α) [[⟨0, 0⟩]] [] := by
  refine ⟨rfl, ?_, fun a => ?_, fun k => ?_, ⟨rfl, nofun⟩, nofun, fun _ => ⟨Nat.zero_le _, nofun⟩, nofun, nofun⟩
  · intro path member
    obtain rfl := List.mem_singleton.mp member
    exact ⟨rfl, rfl⟩
  · show [0].count a + 0 + 0 + (0 + 0) = if a < 1 then 1 else 0
    rw [List.count_singleton]
    simp only [beq_iff_eq]
    split <;> split <;> omega
  · show [0].count k + 0 + 0 ≤ 1 ∧ (0 < [0].count k + 0 + 0 → k ≤ 0)
    rw [List.count_singleton]
    simp only [beq_iff_eq]
    split <;> omega

end WanNet.LockFreeQueue
