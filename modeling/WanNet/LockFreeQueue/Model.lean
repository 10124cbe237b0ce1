import WanNet.Lib.Linearizable
import WanNet.ObjectPool.Model

/-!
`LockFreeQueue`, each read, write, CAS and `Interlocked` call of `Enqueue` and `TryDequeue` one step,
with the steps of its `mNodePool`.
-/

namespace WanNet.LockFreeQueue
open Transition Treiber ObjectPool Concurrent

inductive Op (α : Type) where
  | enqueue (data : α)
  | tryDequeue
  deriving DecidableEq

/-- What a call returns: nothing, `true` with `outData`, or `false`. -/
inductive Ret (α : Type) where
  | enqueued
  | dequeued (outData : α)
  | empty
  deriving DecidableEq

inductive Pc (α : Type) where
  -- Enqueue
  | takeID | alloc (localMyId : Nat) (pc : Alloc) | writeData (newTail : Ptr) | writeNext (newTail : Ptr)
  | readTail (newTail : Ptr) | link (newTail localMyTail : Ptr)
  | readTailNext (newTail localMyTail : Ptr) | helpTail (newTail localMyTail : Ptr) (localMyTailNext : Option Ptr)
  | swapTail (newTail localMyTail : Ptr) | count
  -- TryDequeue
  | testCount | readHead | readTailToTake (localMyHead : Ptr) | readHeadNext (localMyHead : Ptr) (localMyTail : Option Ptr)
  | retestCount | readData (localMyHead localMyHeadNext : Ptr) | swapHead (localMyHead localMyHeadNext : Ptr) (outData : α)
  | free (pc : Free) (outData : α) | uncount (outData : α)
  | finished
  deriving DecidableEq

structure Thread (α : Type) where
  op : Op α
  pc : Pc α
  deriving DecidableEq

/-- `mHead`, `mTail` and each `Next` are a node's address with an ID in the upper 16 bits. A node's own
`Next` is not the one that `mNodePool` keeps for it; `new` clears it. -/
structure Queue (α : Type) where
  mHead : Ptr := ⟨0, 0⟩
  mTail : Option Ptr := some ⟨0, 0⟩
  /-- as if the pointers kept all of it, and 32 bits were enough -/
  mID : Nat := 0
  mCount : Nat := 0
  /-- the constructor's `Alloc` made the first node -/
  mNodePool : Pool := { mCapacity := 1, created := 1 }
  Next : Nat → Option Ptr := fun _ => none
  Data : Nat → α
  threads : List (Thread α) := []
  /-- bookkeeping: the calls and their returns -/
  history : List (Event (Op α) (Ret α)) := []
  /-- bookkeeping: the call that wrote a node's `Data` -/
  writer : Nat → Nat := fun _ => 0
  /-- bookkeeping: the calls whose CAS moved `mHead`, each with the call whose data it took -/
  taken : List (Nat × Nat) := []

variable {α : Type}

/-- The next step of the `i`-th call, and what it returns if that was its last one. -/
def next (s : Queue α) (i : Nat) (op : Op α) : Pc α → Option (Queue α × Pc α × Option (Ret α))
  | .takeID => some ({ s with mID := s.mID + 1 }, .alloc (s.mID + 1) .readTop, none)
  | .alloc localMyId pc =>
    match ObjectPool.alloc s.mNodePool pc with
    | (pool, .done newNode) => some ({ s with mNodePool := pool }, .writeData ⟨newNode, localMyId⟩, none)
    | (pool, pc) => some ({ s with mNodePool := pool }, .alloc localMyId pc, none)
  | .writeData newTail =>
    match op with
    | .enqueue data => some ({ s with
        Data := fun a => if a = newTail.address then data else s.Data a
        writer := fun a => if a = newTail.address then i else s.writer a }, .writeNext newTail, none)
    | .tryDequeue => none
  | .writeNext newTail =>
    some ({ s with Next := fun a => if a = newTail.address then none else s.Next a }, .readTail newTail, none)
  | .readTail newTail => s.mTail.map fun localMyTail => (s, .link newTail localMyTail, none)
  | .link newTail localMyTail =>
    match s.Next localMyTail.address with
    | none => some ({ s with Next := fun a => if a = localMyTail.address then some newTail else s.Next a },
        .swapTail newTail localMyTail, none)
    | some _ => some (s, .readTailNext newTail localMyTail, none)
  | .readTailNext newTail localMyTail => some (s, .helpTail newTail localMyTail (s.Next localMyTail.address), none)
  | .helpTail newTail localMyTail localMyTailNext =>
    some ({ s with mTail := if s.mTail = some localMyTail then localMyTailNext else s.mTail }, .readTail newTail, none)
  | .swapTail newTail localMyTail =>
    some ({ s with mTail := if s.mTail = some localMyTail then some newTail else s.mTail }, .count, none)
  | .count => some ({ s with mCount := inc32 s.mCount }, .finished, some .enqueued)
  | .testCount => if s.mCount = 0 then some (s, .finished, some .empty) else some (s, .readHead, none)
  | .readHead => some (s, .readTailToTake s.mHead, none)
  | .readTailToTake localMyHead => some (s, .readHeadNext localMyHead s.mTail, none)
  | .readHeadNext localMyHead localMyTail =>
    if some localMyHead = localMyTail then some (s, .retestCount, none)
    else match s.Next localMyHead.address with
      | none => some (s, .readHead, none)
      | some localMyHeadNext => some (s, .readData localMyHead localMyHeadNext, none)
  | .retestCount => if s.mCount = 0 then some (s, .finished, some .empty) else some (s, .readHead, none)
  | .readData localMyHead localMyHeadNext =>
    some (s, .swapHead localMyHead localMyHeadNext (s.Data localMyHeadNext.address), none)
  | .swapHead localMyHead localMyHeadNext outData =>
    if s.mHead = localMyHead then
      some ({ s with mHead := localMyHeadNext, taken := s.taken ++ [(i, s.writer localMyHeadNext.address)] },
        .free (.takeID localMyHead.address) outData, none)
    else some (s, .readHead, none)
  | .free pc outData =>
    match ObjectPool.free id s.mNodePool pc with
    | (pool, .done) => some ({ s with mNodePool := pool }, .uncount outData, none)
    | (pool, pc) => some ({ s with mNodePool := pool }, .free pc outData, none)
  | .uncount outData => some ({ s with mCount := dec32 s.mCount }, .finished, some (.dequeued outData))
  | .finished => none

def Op.begin : Op α → Pc α
  | .enqueue _ => .takeID
  | .tryDequeue => .testCount

inductive Label (α : Type) where
  | call (op : Op α)
  | thread (i : Nat)
  deriving DecidableEq

def step (s : Queue α) : Label α → Option (Queue α)
  | .call op => some { s with
      threads := s.threads ++ [⟨op, op.begin⟩]
      history := s.history ++ [.invoke s.threads.length op] }
  | .thread i => (s.threads[i]?).bind fun t => (next s i t.op t.pc).map fun r =>
      { r.1 with
        threads := s.threads.set i ⟨t.op, r.2.1⟩
        history := s.history ++ (r.2.2.map (Event.response i)).toList }

/-- A queue as the constructor leaves it; what `Data` holds of nodes that are not written yet is arbitrary. -/
def queue (α : Type) : System (Queue α) (Label α) where
  init s := ∃ data, s = { Data := data }
  step := step

/-- What a step of a call can do: one case for each way through `next`. -/
inductive Moves (s : Queue α) (i : Nat) (op : Op α) : Pc α → Queue α → Pc α → Option (Ret α) → Prop where
  | takeID : Moves s i op .takeID { s with mID := s.mID + 1 } (.alloc (s.mID + 1) .readTop) none
  | alloc (localMyId : Nat) (pc pc' : Alloc) (pool : Pool) (is : ObjectPool.alloc s.mNodePool pc = (pool, pc')) :
    Moves s i op (.alloc localMyId pc) { s with mNodePool := pool } (.alloc localMyId pc') none
  | allocated (localMyId : Nat) (pc : Alloc) (newNode : Nat) (pool : Pool) (is : ObjectPool.alloc s.mNodePool pc = (pool, .done newNode)) :
    Moves s i op (.alloc localMyId pc) { s with mNodePool := pool } (.writeData ⟨newNode, localMyId⟩) none
  | writeData (newTail : Ptr) (data : α) (enqueue : op = .enqueue data) :
    Moves s i op (.writeData newTail) { s with
      Data := fun a => if a = newTail.address then data else s.Data a
      writer := fun a => if a = newTail.address then i else s.writer a } (.writeNext newTail) none
  | writeNext (newTail : Ptr) :
    Moves s i op (.writeNext newTail) { s with Next := fun a => if a = newTail.address then none else s.Next a } (.readTail newTail) none
  | readTail (newTail localMyTail : Ptr) (is : s.mTail = some localMyTail) :
    Moves s i op (.readTail newTail) s (.link newTail localMyTail) none
  | link (newTail localMyTail : Ptr) (free : s.Next localMyTail.address = none) :
    Moves s i op (.link newTail localMyTail) { s with Next := fun a => if a = localMyTail.address then some newTail else s.Next a }
      (.swapTail newTail localMyTail) none
  | linkFails (newTail localMyTail : Ptr) (linked : s.Next localMyTail.address ≠ none) :
    Moves s i op (.link newTail localMyTail) s (.readTailNext newTail localMyTail) none
  | readTailNext (newTail localMyTail : Ptr) :
    Moves s i op (.readTailNext newTail localMyTail) s (.helpTail newTail localMyTail (s.Next localMyTail.address)) none
  | helpTail (newTail localMyTail : Ptr) (localMyTailNext : Option Ptr) :
    Moves s i op (.helpTail newTail localMyTail localMyTailNext)
      { s with mTail := if s.mTail = some localMyTail then localMyTailNext else s.mTail } (.readTail newTail) none
  | swapTail (newTail localMyTail : Ptr) :
    Moves s i op (.swapTail newTail localMyTail) { s with mTail := if s.mTail = some localMyTail then some newTail else s.mTail } .count none
  | count : Moves s i op .count { s with mCount := inc32 s.mCount } .finished (some .enqueued)
  | testEmpty (zero : s.mCount = 0) : Moves s i op .testCount s .finished (some .empty)
  | testCount (left : s.mCount ≠ 0) : Moves s i op .testCount s .readHead none
  | readHead : Moves s i op .readHead s (.readTailToTake s.mHead) none
  | readTailToTake (localMyHead : Ptr) : Moves s i op (.readTailToTake localMyHead) s (.readHeadNext localMyHead s.mTail) none
  | headIsTail (localMyHead : Ptr) : Moves s i op (.readHeadNext localMyHead (some localMyHead)) s .retestCount none
  | headIsLast (localMyHead : Ptr) (localMyTail : Option Ptr) (other : some localMyHead ≠ localMyTail)
    (last : s.Next localMyHead.address = none) :
    Moves s i op (.readHeadNext localMyHead localMyTail) s .readHead none
  | readHeadNext (localMyHead localMyHeadNext : Ptr) (localMyTail : Option Ptr) (other : some localMyHead ≠ localMyTail)
    (is : s.Next localMyHead.address = some localMyHeadNext) :
    Moves s i op (.readHeadNext localMyHead localMyTail) s (.readData localMyHead localMyHeadNext) none
  | retestEmpty (zero : s.mCount = 0) : Moves s i op .retestCount s .finished (some .empty)
  | retestCount (left : s.mCount ≠ 0) : Moves s i op .retestCount s .readHead none
  | readData (localMyHead localMyHeadNext : Ptr) :
    Moves s i op (.readData localMyHead localMyHeadNext) s (.swapHead localMyHead localMyHeadNext (s.Data localMyHeadNext.address)) none
  | swapHead (localMyHeadNext : Ptr) (outData : α) :
    Moves s i op (.swapHead s.mHead localMyHeadNext outData)
      { s with mHead := localMyHeadNext, taken := s.taken ++ [(i, s.writer localMyHeadNext.address)] } (.free (.takeID s.mHead.address) outData) none
  | swapHeadFails (localMyHead localMyHeadNext : Ptr) (outData : α) (other : s.mHead ≠ localMyHead) :
    Moves s i op (.swapHead localMyHead localMyHeadNext outData) s .readHead none
  | free (pc pc' : Free) (outData : α) (pool : Pool) (is : ObjectPool.free id s.mNodePool pc = (pool, pc')) :
    Moves s i op (.free pc outData) { s with mNodePool := pool } (.free pc' outData) none
  | freed (pc : Free) (outData : α) (pool : Pool) (is : ObjectPool.free id s.mNodePool pc = (pool, .done)) :
    Moves s i op (.free pc outData) { s with mNodePool := pool } (.uncount outData) none
  | uncount (outData : α) : Moves s i op (.uncount outData) { s with mCount := dec32 s.mCount } .finished (some (.dequeued outData))

theorem next_moves {s u : Queue α} {i : Nat} {op : Op α} {pc pc' : Pc α} {r : Option (Ret α)} (h : next s i op pc = some (u, pc', r)) :
    Moves s i op pc u pc' r := by
  cases pc with
  | takeID =>
    cases h
    exact .takeID
  | alloc localMyId pc =>
    simp only [next] at h
    split at h
    next pool newNode is =>
      cases h
      exact .allocated _ _ _ _ is
    next pool pc' _ is =>
      cases h
      exact .alloc _ _ _ _ is
  | writeData newTail =>
    cases op with
    | enqueue data =>
      cases h
      exact .writeData newTail data rfl
    | tryDequeue => cases h
  | writeNext newTail =>
    cases h
    exact .writeNext newTail
  | readTail newTail =>
    obtain ⟨localMyTail, is, moved⟩ := Option.map_eq_some_iff.mp h
    cases moved
    exact .readTail newTail localMyTail is
  | link newTail localMyTail =>
    simp only [next] at h
    split at h
    next is =>
      cases h
      exact .link newTail localMyTail is
    next ptr is =>
      cases h
      exact .linkFails newTail localMyTail (by simp [is])
  | readTailNext newTail localMyTail =>
    cases h
    exact .readTailNext newTail localMyTail
  | helpTail newTail localMyTail localMyTailNext =>
    cases h
    exact .helpTail newTail localMyTail localMyTailNext
  | swapTail newTail localMyTail =>
    cases h
    exact .swapTail newTail localMyTail
  | count =>
    cases h
    exact .count
  | testCount =>
    simp only [next] at h
    split at h
    next zero =>
      cases h
      exact .testEmpty zero
    next left =>
      cases h
      exact .testCount left
  | readHead =>
    cases h
    exact .readHead
  | readTailToTake localMyHead =>
    cases h
    exact .readTailToTake localMyHead
  | readHeadNext localMyHead localMyTail =>
    simp only [next] at h
    split at h
    next same =>
      cases same
      cases h
      exact .headIsTail localMyHead
    next other =>
      split at h
      next last =>
        cases h
        exact .headIsLast localMyHead localMyTail other last
      next localMyHeadNext is =>
        cases h
        exact .readHeadNext localMyHead localMyHeadNext localMyTail other is
  | retestCount =>
    simp only [next] at h
    split at h
    next zero =>
      cases h
      exact .retestEmpty zero
    next left =>
      cases h
      exact .retestCount left
  | readData localMyHead localMyHeadNext =>
    cases h
    exact .readData localMyHead localMyHeadNext
  | swapHead localMyHead localMyHeadNext outData =>
    simp only [next] at h
    split at h
    next same =>
      subst same
      cases h
      exact .swapHead localMyHeadNext outData
    next other =>
      cases h
      exact .swapHeadFails localMyHead localMyHeadNext outData other
  | free pc outData =>
    simp only [next] at h
    split at h
    next pool is =>
      cases h
      exact .freed pc outData pool is
    next pool pc' _ is =>
      cases h
      exact .free pc pc' outData pool is
  | uncount outData =>
    cases h
    exact .uncount outData
  | finished => cases h

def Pc.enqueuing : Pc α → Bool
  | .takeID | .alloc _ _ | .writeData _ | .writeNext _ | .readTail _ | .link _ _ | .readTailNext _ _ | .helpTail _ _ _ | .swapTail _ _
  | .count => true
  | _ => false

def Pc.dequeuing : Pc α → Bool
  | .testCount | .readHead | .readTailToTake _ | .readHeadNext _ _ | .retestCount | .readData _ _ | .swapHead _ _ _ | .free _ _
  | .uncount _ => true
  | _ => false

def Op.runs : Op α → Pc α → Bool
  | _, .finished => true
  | .enqueue _, pc => pc.enqueuing
  | .tryDequeue, pc => pc.dequeuing

theorem Op.runs_begin (op : Op α) : op.runs op.begin = true := by cases op <;> rfl

theorem Moves.runs {s u : Queue α} {i : Nat} {op : Op α} {pc pc' : Pc α} {r : Option (Ret α)} (moved : Moves s i op pc u pc' r)
    (runs : op.runs pc = true) : op.runs pc' = true := by
  cases op with
  | enqueue data =>
    cases moved with
    | testEmpty | testCount | readHead | readTailToTake | headIsTail | headIsLast | readHeadNext | retestEmpty | retestCount | readData
    | swapHead | swapHeadFails | free | freed | uncount => cases runs
    | _ => rfl
  | tryDequeue =>
    cases moved with
    | takeID | alloc | allocated | writeData | writeNext | readTail | link | linkFails | readTailNext | helpTail | swapTail | count => cases runs
    | _ => rfl

theorem enqueue_of_runs {op : Op α} {pc : Pc α} (runs : op.runs pc = true) (inside : pc.enqueuing = true) : ∃ data, op = .enqueue data := by
  cases op with
  | enqueue data => exact ⟨data, rfl⟩
  | tryDequeue => cases pc <;> first | cases runs; done | cases inside

theorem tryDequeue_of_runs {op : Op α} {pc : Pc α} (runs : op.runs pc = true) (inside : pc.dequeuing = true) : op = .tryDequeue := by
  cases op with
  | enqueue data => cases pc <;> first | cases runs; done | cases inside
  | tryDequeue => rfl

def begins (op : Op α) (i n : Nat) : List (Label α) := .call op :: List.replicate n (.thread i)

theorem all_finished {s : Queue α} {n : Nat} (ended : s.threads.map Thread.pc = List.replicate n .finished) : ∀ t ∈ s.threads, t.pc = .finished := by
  intro t member
  have at_end := List.mem_map_of_mem (f := Thread.pc) member
  rw [ended] at at_end
  exact List.eq_of_mem_replicate at_end

end WanNet.LockFreeQueue
