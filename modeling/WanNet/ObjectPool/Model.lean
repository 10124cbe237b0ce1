import WanNet.Interlocked
import WanNet.Lib.Transition
import WanNet.Lib.Treiber

/-!
`LockFreeObjectPool`, each read, write, CAS and `Interlocked` call of `Alloc` and `Free` one step, and
a pool that any number of threads use.
-/

namespace WanNet.ObjectPool
open Transition Treiber

/-- `mTop` and each `Next` are a node's address with an ID in the upper 16 bits. Nodes are numbered in
the order in which `new` makes them. -/
structure Pool where
  mTop : Option Ptr := none
  /-- less its wrap-around: the pointers keep no more than its lower 16 bits -/
  mID : Nat := 0
  mCapacity : Nat := 0
  mSize : Nat := 0
  Next : Nat → Option Ptr := fun _ => none
  /-- bookkeeping: how many nodes there are -/
  created : Nat := 0

inductive Alloc where
  | readTop | countCapacity | create
  | readNext (localMyTop : Ptr) | swapTop (localMyTop : Ptr) (localMyNext : Option Ptr) | countSize (retNode : Nat)
  | done (retNode : Nat)
  deriving DecidableEq

inductive Free where
  | takeID (node : Nat) | readTop (newTop : Ptr)
  | writeNext (newTop : Ptr) (localMyTop : Option Ptr) | swapTop (newTop : Ptr) (localMyTop : Option Ptr)
  | countSize | done
  deriving DecidableEq

def alloc (p : Pool) : Alloc → Pool × Alloc
  | .readTop =>
    match p.mTop with
    | none => (p, .countCapacity)
    | some localMyTop => (p, .readNext localMyTop)
  | .countCapacity => ({ p with mCapacity := inc32 p.mCapacity }, .create)
  | .create =>
    ({ p with Next := fun a => if a = p.created then none else p.Next a, created := p.created + 1 }, .done p.created)
  | .readNext localMyTop => (p, .swapTop localMyTop (p.Next localMyTop.address))
  | .swapTop localMyTop localMyNext =>
    if p.mTop = some localMyTop then ({ p with mTop := localMyNext }, .countSize localMyTop.address) else (p, .readTop)
  | .countSize retNode => ({ p with mSize := dec32 p.mSize }, .done retNode)
  | .done retNode => (p, .done retNode)

/-- `tag` is what the shift by `ADDRESS_BIT_COUNT` leaves of `mID`. -/
def free (tag : Nat → Nat) (p : Pool) : Free → Pool × Free
  | .takeID node => ({ p with mID := p.mID + 1 }, .readTop ⟨node, tag (p.mID + 1)⟩)
  | .readTop newTop => (p, .writeNext newTop p.mTop)
  | .writeNext newTop localMyTop =>
    ({ p with Next := fun a => if a = newTop.address then localMyTop else p.Next a }, .swapTop newTop localMyTop)
  | .swapTop newTop localMyTop =>
    if p.mTop = localMyTop then ({ p with mTop := some newTop }, .countSize) else (p, .readTop newTop)
  | .countSize => ({ p with mSize := inc32 p.mSize }, .done)
  | .done => (p, .done)

def idFlag (mID : Nat) : Nat := mID % 2 ^ 16

inductive Call where
  | idle
  | allocating (pc : Alloc)
  | freeing (pc : Free)
  deriving DecidableEq

structure Heap where
  pool : Pool := {}
  /-- the nodes that `Alloc` has returned and that were not given to `Free` -/
  held : List Nat := []
  threads : List Call := []

inductive Label where
  | alloc
  | free (node : Nat)
  | thread (i : Nat)
  deriving DecidableEq

def Heap.step (tag : Nat → Nat) (s : Heap) : Label → Option Heap
  | .alloc => some { s with threads := s.threads ++ [.allocating .readTop] }
  | .free node =>
    if node ∈ s.held then
      some { s with held := s.held.erase node, threads := s.threads ++ [.freeing (.takeID node)] }
    else none
  | .thread i =>
    match s.threads[i]? with
    | some (.allocating pc) =>
      match alloc s.pool pc with
      | (pool, .done retNode) => some ⟨pool, retNode :: s.held, s.threads.set i .idle⟩
      | (pool, pc) => some ⟨pool, s.held, s.threads.set i (.allocating pc)⟩
    | some (.freeing pc) =>
      match free tag s.pool pc with
      | (pool, .done) => some ⟨pool, s.held, s.threads.set i .idle⟩
      | (pool, pc) => some ⟨pool, s.held, s.threads.set i (.freeing pc)⟩
    | _ => none

/-- A pool without nodes. What the constructor allocates and frees again is the run's beginning. -/
def heap (tag : Nat → Nat) : System Heap Label where
  init s := s = {}
  step := Heap.step tag

end WanNet.ObjectPool
