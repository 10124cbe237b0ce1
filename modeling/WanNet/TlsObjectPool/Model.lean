import WanNet.Interlocked
import WanNet.Lib.Transition

/-!
`TlsObjectPool`: the pools of any number of threads, and the `ObjectPoolManager` they share. What a
call does to its own thread's pool, and each locked section of the manager, is one step.
-/

namespace WanNet.TlsObjectPool
open Transition

def maxChunkCount : Nat := 100000

def objectCountPerChunk : Nat := 500

def maxObjectCountPerThread : Nat := objectCountPerChunk * 2

inductive Pc where
  | idle
  -- Alloc
  | allocChunk | newChunk
  -- Free
  | freeChunk (newTop : Option Nat)
  -- PreCreateChunk, with the chunks still to make
  | createChunk (chunkCount : Nat) | storeChunk (chunkTop : Option Nat) (chunkCount : Nat)
  | ended
  deriving DecidableEq

structure Pool where
  mTop : Option Nat := none
  mHalfTop : Option Nat := none
  mSize : Nat := 0
  pc : Pc := .idle
  deriving DecidableEq

/-- The manager, the `Next` of the nodes, which are numbered in the order in which they are made, and
the threads. -/
structure Pools where
  mChunks : Nat → Option Nat := fun _ => none
  mChunkInManagerCount : Nat := 0
  mChunkTotalCount : Nat := 0
  Next : Nat → Option Nat
  threads : List Pool := []
  /-- `CrashDump::Assert` failed, or a null pointer was followed -/
  crashed : Bool := false
  /-- bookkeeping: the nodes that `Alloc` has returned and that were not given to `Free` -/
  held : List Nat := []
  /-- bookkeeping: how many nodes there are -/
  created : Nat := 0

/-- 500 new nodes, each with the one before as its `Next`, and the last one. -/
def newChunk (s : Pools) : Pools × Option Nat :=
  ({ s with
    Next := fun a =>
      if s.created ≤ a ∧ a < s.created + objectCountPerChunk then (if a = s.created then none else some (a - 1)) else s.Next a
    created := s.created + objectCountPerChunk
    mChunkTotalCount := inc32 s.mChunkTotalCount
    crashed := decide (maxChunkCount < inc32 s.mChunkTotalCount) }, some (s.created + objectCountPerChunk - 1))

/-- The end of `Alloc`: the top node goes out. -/
def takeTop (s : Pools) (t : Pool) : Pools × Pool :=
  match t.mTop with
  | none => ({ s with crashed := true }, t)
  | some retNode => ({ s with held := retNode :: s.held }, { t with mTop := s.Next retNode, mSize := dec32 t.mSize, pc := .idle })

def alloc (s : Pools) (t : Pool) : Pools × Pool :=
  match t.mTop with
  | none => (s, { t with pc := .allocChunk })
  | some _ => takeTop s t

/-- `Alloc` with the chunk that `AllocChunk` has returned. -/
def takeChunk (s : Pools) (t : Pool) (chunk : Option Nat) : Pools × Pool :=
  takeTop s { t with mTop := chunk, mSize := objectCountPerChunk }

def free (s : Pools) (t : Pool) (node : Nat) : Pools × Pool :=
  let s := { s with Next := fun a => if a = node then t.mTop else s.Next a }
  let t := { t with mTop := some node, mSize := inc32 t.mSize }
  if t.mSize = maxObjectCountPerThread then
    match t.mHalfTop with
    | none => ({ s with crashed := true }, t)
    | some halfTop =>
      ({ s with Next := fun a => if a = halfTop then none else s.Next a }, { t with pc := .freeChunk (s.Next halfTop) })
  else if t.mSize = objectCountPerChunk + 1 then (s, { t with mHalfTop := t.mTop })
  else (s, t)

/-- The locked section of `FreeChunk` and `CreateChunk`. -/
def store (s : Pools) (chunkTop : Option Nat) : Pools :=
  { s with
    mChunks := fun k => if k = s.mChunkInManagerCount then chunkTop else s.mChunks k
    mChunkInManagerCount := inc32 s.mChunkInManagerCount }

/-- The rest of a call. -/
def next (s : Pools) (t : Pool) : Option (Pools × Pool) :=
  match t.pc with
  | .allocChunk =>
    if s.mChunkInManagerCount = 0 then some (s, { t with pc := .newChunk })
    else
      let count := dec32 s.mChunkInManagerCount
      some (takeChunk { s with mChunkInManagerCount := count } t (s.mChunks count))
  | .newChunk => some (takeChunk (newChunk s).1 t (newChunk s).2)
  | .freeChunk newTop => some (store s t.mTop, { t with mTop := newTop, mSize := t.mSize - objectCountPerChunk, pc := .idle })
  | .createChunk 0 => some (s, { t with pc := .idle })
  | .createChunk (chunkCount + 1) => some ((newChunk s).1, { t with pc := .storeChunk (newChunk s).2 chunkCount })
  | .storeChunk chunkTop chunkCount => some (store s chunkTop, { t with pc := .createChunk chunkCount })
  | .idle | .ended => none

inductive Label where
  | start
  | exit (i : Nat)
  | alloc (i : Nat)
  | free (i node : Nat)
  | preCreateChunk (i chunkCount : Nat)
  | thread (i : Nat)
  deriving DecidableEq

def Pools.idle (s : Pools) (i : Nat) : Option Pool := (s.threads[i]?).filter fun t => t.pc = .idle

def Pools.put (i : Nat) (r : Pools × Pool) : Pools := { r.1 with threads := r.1.threads.set i r.2 }

def step (s : Pools) (l : Label) : Option Pools :=
  if s.crashed then none
  else
    match l with
    | .start => some { s with threads := s.threads ++ [{}] }
    | .exit i => (s.idle i).map fun t => Pools.put i (s, { t with pc := .ended })
    | .alloc i => (s.idle i).map fun t => Pools.put i (alloc s t)
    | .free i node =>
      if node ∈ s.held then (s.idle i).map fun t => Pools.put i (free { s with held := s.held.erase node } t node) else none
    | .preCreateChunk i chunkCount => (s.idle i).map fun t => Pools.put i (s, { t with pc := .createChunk chunkCount })
    | .thread i => ((s.threads[i]?).bind (next s)).map (Pools.put i)

/-- No thread has a pool yet; what memory that holds no node contains is arbitrary. -/
def pools : System Pools Label where
  init s := ∃ Next, s = { Next := Next }
  step := step

end WanNet.TlsObjectPool
