import WanNet.Lib.Linearizable
import WanNet.ObjectPool.Model

/-!
`LockFreeStack`, each read, write, CAS and `Interlocked` call of `Push` and `TryPop` one step, with
the steps of its `mNodePool`.
-/

namespace WanNet.LockFreeStack
open Transition Treiber ObjectPool Concurrent

inductive Op (α : Type) where
  | push (data : α)
  | tryPop
  deriving DecidableEq

/-- What a call returns: nothing, `true` with `outData`, or `false`. -/
inductive Ret (α : Type) where
  | pushed
  | popped (outData : α)
  | empty
  deriving DecidableEq

inductive Pc (α : Type) where
  -- Push
  | alloc (pc : Alloc) | writeData (newNode : Nat) | takeID (newNode : Nat)
  | readTop (newTop : Ptr) | writeNext (newTop : Ptr) (localMyTop : Option Ptr)
  | swapTop (newTop : Ptr) (localMyTop : Option Ptr) | count
  -- TryPop
  | readTopToPop | readNext (localMyTop : Ptr) | swapTopToPop (localMyTop : Ptr) (localMyNext : Option Ptr)
  | uncount (localMyPureTop : Nat) | readData (localMyPureTop : Nat) | free (pc : Free) (outData : α)
  | finished
  deriving DecidableEq

structure Thread (α : Type) where
  op : Op α
  pc : Pc α
  deriving DecidableEq

/-- `mTop` and each `Next` are a node's address with an ID in the upper 16 bits. -/
structure Stack (α : Type) where
  mTop : Option Ptr := none
  /-- as if the pointers kept all of it, and 32 bits were enough -/
  mID : Nat := 0
  mCount : Nat := 0
  mNodePool : Pool := {}
  Next : Nat → Option Ptr := fun _ => none
  Data : Nat → α
  threads : List (Thread α) := []
  /-- bookkeeping: the calls and their returns -/
  history : List (Event (Op α) (Ret α)) := []

variable {α : Type}

/-- The next step of a call, and what it returns if that was its last one. -/
def next (s : Stack α) (op : Op α) : Pc α → Option (Stack α × Pc α × Option (Ret α))
  | .alloc pc =>
    match ObjectPool.alloc s.mNodePool pc with
    | (pool, .done newNode) => some ({ s with mNodePool := pool }, .writeData newNode, none)
    | (pool, pc) => some ({ s with mNodePool := pool }, .alloc pc, none)
  | .writeData newNode =>
    match op with
    | .push data => some ({ s with Data := fun a => if a = newNode then data else s.Data a }, .takeID newNode, none)
    | .tryPop => none
  | .takeID newNode => some ({ s with mID := s.mID + 1 }, .readTop ⟨newNode, s.mID + 1⟩, none)
  | .readTop newTop => some (s, .writeNext newTop s.mTop, none)
  | .writeNext newTop localMyTop =>
    some ({ s with Next := fun a => if a = newTop.address then localMyTop else s.Next a }, .swapTop newTop localMyTop, none)
  | .swapTop newTop localMyTop =>
    if s.mTop = localMyTop then some ({ s with mTop := some newTop }, .count, none) else some (s, .readTop newTop, none)
  | .count => some ({ s with mCount := inc32 s.mCount }, .finished, some .pushed)
  | .readTopToPop =>
    match s.mTop with
    | none => some (s, .finished, some .empty)
    | some localMyTop => some (s, .readNext localMyTop, none)
  | .readNext localMyTop => some (s, .swapTopToPop localMyTop (s.Next localMyTop.address), none)
  | .swapTopToPop localMyTop localMyNext =>
    if s.mTop = some localMyTop then some ({ s with mTop := localMyNext }, .uncount localMyTop.address, none)
    else some (s, .readTopToPop, none)
  | .uncount localMyPureTop => some ({ s with mCount := dec32 s.mCount }, .readData localMyPureTop, none)
  | .readData localMyPureTop => some (s, .free (.takeID localMyPureTop) (s.Data localMyPureTop), none)
  | .free pc outData =>
    match ObjectPool.free id s.mNodePool pc with
    | (pool, .done) => some ({ s with mNodePool := pool }, .finished, some (.popped outData))
    | (pool, pc) => some ({ s with mNodePool := pool }, .free pc outData, none)
  | .finished => none

def Op.begin : Op α → Pc α
  | .push _ => .alloc .readTop
  | .tryPop => .readTopToPop

inductive Label (α : Type) where
  | call (op : Op α)
  | thread (i : Nat)
  deriving DecidableEq

def step (s : Stack α) : Label α → Option (Stack α)
  | .call op => some { s with
      threads := s.threads ++ [⟨op, op.begin⟩]
      history := s.history ++ [.invoke s.threads.length op] }
  | .thread i => (s.threads[i]?).bind fun t => (next s t.op t.pc).map fun r =>
      { r.1 with
        threads := s.threads.set i ⟨t.op, r.2.1⟩
        history := s.history ++ (r.2.2.map (Event.response i)).toList }

/-- An empty stack; what `Data` holds of nodes that are not made yet is arbitrary. -/
def stack (α : Type) : System (Stack α) (Label α) where
  init s := ∃ data, s = { Data := data }
  step := step

/-- What a step of a call can do: one case for each way through `next`. -/
inductive Moves (s : Stack α) (op : Op α) : Pc α → Stack α → Pc α → Option (Ret α) → Prop where
  | alloc (pc pc' : Alloc) (pool : Pool) (is : ObjectPool.alloc s.mNodePool pc = (pool, pc')) :
    Moves s op (.alloc pc) { s with mNodePool := pool } (.alloc pc') none
  | allocated (pc : Alloc) (newNode : Nat) (pool : Pool) (is : ObjectPool.alloc s.mNodePool pc = (pool, .done newNode)) :
    Moves s op (.alloc pc) { s with mNodePool := pool } (.writeData newNode) none
  | writeData (newNode : Nat) (data : α) (push : op = .push data) :
    Moves s op (.writeData newNode) { s with Data := fun a => if a = newNode then data else s.Data a } (.takeID newNode) none
  | takeID (newNode : Nat) : Moves s op (.takeID newNode) { s with mID := s.mID + 1 } (.readTop ⟨newNode, s.mID + 1⟩) none
  | readTop (newTop : Ptr) : Moves s op (.readTop newTop) s (.writeNext newTop s.mTop) none
  | writeNext (newTop : Ptr) (localMyTop : Option Ptr) :
    Moves s op (.writeNext newTop localMyTop) { s with Next := fun a => if a = newTop.address then localMyTop else s.Next a }
      (.swapTop newTop localMyTop) none
  | swapTop (newTop : Ptr) : Moves s op (.swapTop newTop s.mTop) { s with mTop := some newTop } .count none
  | swapTopFails (newTop : Ptr) (localMyTop : Option Ptr) (other : s.mTop ≠ localMyTop) :
    Moves s op (.swapTop newTop localMyTop) s (.readTop newTop) none
  | count : Moves s op .count { s with mCount := inc32 s.mCount } .finished (some .pushed)
  | popsNone (empty : s.mTop = none) : Moves s op .readTopToPop s .finished (some .empty)
  | readTopToPop (localMyTop : Ptr) (is : s.mTop = some localMyTop) : Moves s op .readTopToPop s (.readNext localMyTop) none
  | readNext (localMyTop : Ptr) : Moves s op (.readNext localMyTop) s (.swapTopToPop localMyTop (s.Next localMyTop.address)) none
  | swapTopToPop (localMyTop : Ptr) (localMyNext : Option Ptr) (is : s.mTop = some localMyTop) :
    Moves s op (.swapTopToPop localMyTop localMyNext) { s with mTop := localMyNext } (.uncount localMyTop.address) none
  | swapTopToPopFails (localMyTop : Ptr) (localMyNext : Option Ptr) (other : s.mTop ≠ some localMyTop) :
    Moves s op (.swapTopToPop localMyTop localMyNext) s .readTopToPop none
  | uncount (localMyPureTop : Nat) :
    Moves s op (.uncount localMyPureTop) { s with mCount := dec32 s.mCount } (.readData localMyPureTop) none
  | readData (localMyPureTop : Nat) :
    Moves s op (.readData localMyPureTop) s (.free (.takeID localMyPureTop) (s.Data localMyPureTop)) none
  | free (pc pc' : Free) (outData : α) (pool : Pool) (is : ObjectPool.free id s.mNodePool pc = (pool, pc')) :
    Moves s op (.free pc outData) { s with mNodePool := pool } (.free pc' outData) none
  | freed (pc : Free) (outData : α) (pool : Pool) (is : ObjectPool.free id s.mNodePool pc = (pool, .done)) :
    Moves s op (.free pc outData) { s with mNodePool := pool } .finished (some (.popped outData))

theorem next_moves {s u : Stack α} {op : Op α} {pc pc' : Pc α} {r : Option (Ret α)} (h : next s op pc = some (u, pc', r)) :
    Moves s op pc u pc' r := by
  cases pc with
  | alloc pc =>
    simp only [next] at h
    split at h
    next pool newNode is =>
      cases h
      exact .allocated pc newNode pool is
    next pool pc' _ is =>
      cases h
      exact .alloc pc pc' pool is
  | writeData newNode =>
    cases op with
    | push data =>
      cases h
      exact .writeData newNode data rfl
    | tryPop => cases h
  | takeID newNode =>
    cases h
    exact .takeID newNode
  | readTop newTop =>
    cases h
    exact .readTop newTop
  | writeNext newTop localMyTop =>
    cases h
    exact .writeNext newTop localMyTop
  | swapTop newTop localMyTop =>
    simp only [next] at h
    split at h
    next same =>
      subst same
      cases h
      exact .swapTop newTop
    next other =>
      cases h
      exact .swapTopFails newTop localMyTop other
  | count =>
    cases h
    exact .count
  | readTopToPop =>
    simp only [next] at h
    split at h
    next empty =>
      cases h
      exact .popsNone empty
    next localMyTop is =>
      cases h
      exact .readTopToPop localMyTop is
  | readNext localMyTop =>
    cases h
    exact .readNext localMyTop
  | swapTopToPop localMyTop localMyNext =>
    simp only [next] at h
    split at h
    next is =>
      cases h
      exact .swapTopToPop localMyTop localMyNext is
    next other =>
      cases h
      exact .swapTopToPopFails localMyTop localMyNext other
  | uncount localMyPureTop =>
    cases h
    exact .uncount localMyPureTop
  | readData localMyPureTop =>
    cases h
    exact .readData localMyPureTop
  | free pc outData =>
    simp only [next] at h
    split at h
    next pool is =>
      cases h
      exact .freed pc outData pool is
    next pool pc' _ is =>
      cases h
      exact .free pc pc' outData pool is
  | finished => cases h

def lifo (α : Type) : Object (Op α) (Ret α) (List α) where
  start := []
  apply
    | l, .push data => (data :: l, .pushed)
    | [], .tryPop => ([], .empty)
    | data :: l, .tryPop => (l, .popped data)

end WanNet.LockFreeStack
