import WanNet.Lib.Linked
import WanNet.Lib.Threads
import WanNet.TlsObjectPool.Model

/-!
Where the nodes of `TlsObjectPool` are, and the lists they form.
-/

namespace WanNet.TlsObjectPool
open Transition Threads

/-- A pool between two calls: its list, and the node at which `Free` will cut it. -/
structure Orderly (Next : Nat → Option Nat) (t : Pool) (own : List Nat) : Prop where
  path : Linked Next t.mTop own
  size : t.mSize = own.length
  room : own.length < maxObjectCountPerThread
  half : objectCountPerChunk < own.length →
    ∃ above halfTop below, own = above ++ halfTop :: below ∧ t.mHalfTop = some halfTop ∧ below.length = objectCountPerChunk

def IsChunk (Next : Nat → Option Nat) (top : Option Nat) (chunk : List Nat) : Prop :=
  Linked Next top chunk ∧ chunk.length = objectCountPerChunk

/-- What a thread has, at each point of a call: its list, and a chunk on its way to the manager. -/
def Pool.Keeps (Next : Nat → Option Nat) (t : Pool) (own chunk : List Nat) : Prop :=
  match t.pc with
  | .idle | .createChunk _ => Orderly Next t own ∧ chunk = []
  | .allocChunk | .newChunk => t.mTop = none ∧ own = [] ∧ chunk = []
  | .freeChunk newTop => IsChunk Next t.mTop chunk ∧ IsChunk Next newTop own ∧ t.mSize = maxObjectCountPerThread
  | .storeChunk chunkTop _ => Orderly Next t own ∧ IsChunk Next chunkTop chunk
  | .ended => own = [] ∧ chunk = []

/-- How often a node is in what a thread has. -/
def inHand (x : Nat) (hand : List Nat × List Nat) : Nat := hand.1.count x + hand.2.count x

def made (s : Pools) (x : Nat) : Nat := if x < s.created then 1 else 0

/-- Every node is in one place: with a thread, in a chunk of the manager's, handed out, or lost with a
thread that has ended. -/
structure Placed (s : Pools) (hands : List (List Nat × List Nat)) (chunks : List (List Nat)) (lost : List Nat) : Prop where
  threads : hands.length = s.threads.length
  keeps : ∀ (i : Nat) (t : Pool) (own chunk : List Nat), s.threads[i]? = some t → hands[i]? = some (own, chunk) → t.Keeps s.Next own chunk
  count : s.mChunkInManagerCount = chunks.length
  stored : ∀ (k : Nat) (c : List Nat), chunks[k]? = some c → IsChunk s.Next (s.mChunks k) c
  owned : ∀ x, total (inHand x) hands + total (List.count x) chunks + s.held.count x + lost.count x = made s x
  total_chunks : s.created = objectCountPerChunk * s.mChunkTotalCount ∧ s.mChunkTotalCount ≤ maxChunkCount

variable {s u : Pools} {t v : Pool} {i j x node : Nat} {own own' chunk chunk' lost lost' : List Nat} {chunks chunks' : List (List Nat)}
  {hands : List (List Nat × List Nat)} {Next Next' : Nat → Option Nat} {top : Option Nat}

theorem IsChunk.congr (is : IsChunk Next top chunk) (same : ∀ x ∈ chunk, Next' x = Next x) : IsChunk Next' top chunk :=
  ⟨is.1.congr same, is.2⟩

theorem Orderly.congr (ord : Orderly Next t own) (same : ∀ x ∈ own, Next' x = Next x) : Orderly Next' t own :=
  ⟨ord.path.congr same, ord.size, ord.room, ord.half⟩

theorem Pool.Keeps.congr (keeps : t.Keeps Next own chunk) (same : ∀ x, x ∈ own ∨ x ∈ chunk → Next' x = Next x) :
    t.Keeps Next' own chunk := by
  obtain ⟨mTop, mHalfTop, mSize, pc⟩ := t
  cases pc with
  | idle | createChunk => exact ⟨keeps.1.congr fun x member => same x (.inl member), keeps.2⟩
  | allocChunk | newChunk | ended => exact keeps
  | freeChunk =>
    exact ⟨keeps.1.congr fun x member => same x (.inr member), keeps.2.1.congr fun x member => same x (.inl member), keeps.2.2⟩
  | storeChunk =>
    exact ⟨keeps.1.congr fun x member => same x (.inl member), keeps.2.congr fun x member => same x (.inr member)⟩

theorem inHand_pos (member : x ∈ own ∨ x ∈ chunk) : 0 < inHand x (own, chunk) := by
  rcases member with member | member
  · exact Nat.add_pos_left (List.count_pos_iff.mpr member) _
  · exact Nat.add_pos_right _ (List.count_pos_iff.mpr member)

/-- A node that is with one thread, handed out or not made yet is with no other thread and in no chunk. -/
theorem Placed.elsewhere (placed : Placed s hands chunks lost) (at_h : hands[i]? = some (own, chunk))
    (here : x ∈ own ∨ x ∈ s.held ∨ s.created ≤ x) : (∀ j p, j ≠ i → hands[j]? = some p → x ∉ p.1 ∧ x ∉ p.2) ∧ ∀ c ∈ chunks, x ∉ c := by
  have owned := placed.owned x
  have one : made s x ≤ 1 ∧ (s.created ≤ x → made s x = 0) := by
    unfold made
    constructor <;> split <;> omega
  have mine := le_total (w := inHand x) (List.mem_of_getElem? at_h)
  have weight : 0 < inHand x (own, chunk) ∨ 0 < s.held.count x ∨ made s x = 0 := by
    rcases here with member | member | new
    · exact .inl (inHand_pos (.inl member))
    · exact .inr (.inl (List.count_pos_iff.mpr member))
    · exact .inr (.inr (one.2 new))
  refine ⟨fun j p apart at_j => ?_, fun c listed member => ?_⟩
  · have two := add_le_total (w := inHand x) at_h at_j apart
    have none : inHand x p = 0 := by omega
    have none : p.1.count x + p.2.count x = 0 := none
    exact ⟨List.count_eq_zero.mp (by omega), List.count_eq_zero.mp (by omega)⟩
  · have inside := le_total (w := List.count x) listed
    have := List.count_pos_iff.mpr member
    omega

theorem Placed.move (placed : Placed s hands chunks lost) (at_i : s.threads[i]? = some t) (at_h : hands[i]? = some (own, chunk))
    (changed : ∀ x, u.Next x = s.Next x ∨ x ∈ own ∨ x ∈ s.held ∨ s.created ≤ x) (keeps : v.Keeps u.Next own' chunk')
    (count : u.mChunkInManagerCount = chunks'.length)
    (stored : ∀ (k : Nat) (c : List Nat), chunks'[k]? = some c →
      chunks[k]? = some c ∧ u.mChunks k = s.mChunks k ∨ IsChunk u.Next (u.mChunks k) c)
    (owned : ∀ x, inHand x (own', chunk') + total (List.count x) chunks' + u.held.count x + lost'.count x + made s x =
      inHand x (own, chunk) + total (List.count x) chunks + s.held.count x + lost.count x + made u x)
    (total_chunks : u.created = objectCountPerChunk * u.mChunkTotalCount ∧ u.mChunkTotalCount ≤ maxChunkCount) :
    Placed { u with threads := s.threads.set i v } (hands.set i (own', chunk')) chunks' lost' := by
  have away {x : Nat} (nowhere : x ∉ own ∧ x ∉ s.held ∧ x < s.created) : u.Next x = s.Next x := by
    rcases changed x with same | here | here | here
    · exact same
    · exact absurd here nowhere.1
    · exact absurd here nowhere.2.1
    · exact absurd nowhere.2.2 (Nat.not_lt_of_le here)
  have apart {x : Nat} (elsewhere : (∃ j p, j ≠ i ∧ hands[j]? = some p ∧ (x ∈ p.1 ∨ x ∈ p.2)) ∨ ∃ c ∈ chunks, x ∈ c) :
      u.Next x = s.Next x := by
    refine away (by_contra fun not => ?_)
    have here : x ∈ own ∨ x ∈ s.held ∨ s.created ≤ x := by
      by_cases mine : x ∈ own
      · exact .inl mine
      by_cases out : x ∈ s.held
      · exact .inr (.inl out)
      by_cases old : x < s.created
      · exact absurd ⟨mine, out, old⟩ not
      · exact .inr (.inr (Nat.le_of_not_lt old))
    obtain ⟨hand, inside⟩ := placed.elsewhere at_h here
    rcases elsewhere with ⟨j, p, other, at_j, member⟩ | ⟨c, listed, member⟩
    · rcases member with member | member
      · exact (hand j p other at_j).1 member
      · exact (hand j p other at_j).2 member
    · exact inside c listed member
  refine ⟨?_, fun j w o c at_j at_p => ?_, count, fun k c at_k => ?_, fun x => ?_, total_chunks⟩
  · rw [List.length_set, List.length_set]
    exact placed.threads
  · rcases at_set at_j with ⟨rfl, rfl⟩ | ⟨other, at_j⟩
    · rw [List.getElem?_set_self (List.getElem?_eq_some_iff.mp at_h).1] at at_p
      cases at_p
      exact keeps
    · rw [List.getElem?_set_ne (Ne.symm other)] at at_p
      exact (placed.keeps j w o c at_j at_p).congr fun x member => apart (.inl ⟨j, _, other, at_p, member⟩)
  · rcases stored k c at_k with ⟨old, same⟩ | new
    · show IsChunk u.Next (u.mChunks k) c
      rw [same]
      exact (placed.stored k c old).congr fun x member => apart (.inr ⟨c, List.mem_of_getElem? old, member⟩)
    · exact new
  · have moved := total_set (w := inHand x) (b := (own', chunk')) at_h
    have := placed.owned x
    have := owned x
    show _ + u.held.count x + _ = made u x
    omega

/-! ### The lists of one thread -/

theorem Orderly.words (ord : Orderly Next t own) : t.mSize < 1000 := by
  have := ord.room
  rw [ord.size]
  exact this

theorem Orderly.pop (ord : Orderly Next t (node :: own)) :
    t.mTop = some node ∧ Orderly Next { t with mTop := Next node, mSize := dec32 t.mSize, pc := .idle } own := by
  have size := ord.size
  have words := ord.words
  have room := ord.room
  rw [List.length_cons] at size room
  refine ⟨ord.path.1, ord.path.2, ?_, by omega, fun many => ?_⟩
  · show dec32 t.mSize = own.length
    rw [dec32_eq (by omega) (by omega), size]
    rfl
  · obtain ⟨above, halfTop, below, is, half, length⟩ := ord.half (by rw [List.length_cons]; omega)
    cases above with
    | nil =>
      obtain ⟨-, rfl⟩ := List.cons.inj is
      omega
    | cons _ above =>
      obtain ⟨-, rfl⟩ := List.cons.inj is
      exact ⟨above, halfTop, below, rfl, half, length⟩

/-- A chunk becomes the list of an empty pool. -/
theorem IsChunk.orderly (is : IsChunk Next top chunk) (t : Pool) : Orderly Next { t with mTop := top, mSize := objectCountPerChunk } chunk :=
  ⟨is.1, is.2.symm, by rw [is.2]; decide, fun many => absurd many (by rw [is.2]; decide)⟩

theorem IsChunk.cons (is : IsChunk Next top chunk) : ∃ node rest, chunk = node :: rest := by
  cases chunk with
  | nil => cases is.2
  | cons node rest => exact ⟨node, rest, rfl⟩

theorem Orderly.push (ord : Orderly Next t own) (fresh : node ∉ own) :
    Linked (fun a => if a = node then t.mTop else Next a) (some node) (node :: own) := by
  refine ⟨rfl, ?_⟩
  show Linked _ (if node = node then t.mTop else Next node) own
  rw [if_pos rfl]
  refine ord.path.congr fun a member => if_neg ?_
  rintro rfl
  exact fresh member

/-- The 1000th node: the upper half of the list is a chunk, and so is the rest. -/
theorem Orderly.split (ord : Orderly Next t own) (fresh : (node :: own).Nodup) (full : own.length + 1 = maxObjectCountPerThread) :
    ∃ chunk below halfTop, node :: own = chunk ++ below ∧ t.mHalfTop = some halfTop ∧ halfTop ∈ node :: own ∧
      IsChunk (fun a => if a = halfTop then none else if a = node then t.mTop else Next a) (some node) chunk ∧
      IsChunk (fun a => if a = halfTop then none else if a = node then t.mTop else Next a)
        (if halfTop = node then t.mTop else Next halfTop) below := by
  have path := ord.push (List.nodup_cons.mp fresh).1
  simp only [maxObjectCountPerThread, objectCountPerChunk] at full
  obtain ⟨above, halfTop, below, rfl, half, length⟩ := ord.half (by simp only [objectCountPerChunk]; omega)
  have listed : node :: (above ++ halfTop :: below) = (node :: above) ++ halfTop :: below := rfl
  rw [listed] at path fresh
  obtain ⟨-, tail, apart⟩ := List.nodup_append.mp fresh
  refine ⟨node :: above ++ [halfTop], below, halfTop, by simp, half, by simp, ⟨?_, ?_⟩, ?_, length⟩
  · refine path.cut (fun a member => if_neg ?_) (if_pos rfl)
    rintro rfl
    exact apart a member a (.head _) rfl
  · simp only [objectCountPerChunk, List.length_append, List.length_cons, List.length_nil] at *
    omega
  · refine path.append.2.congr fun a member => if_neg ?_
    rintro rfl
    exact (List.nodup_cons.mp tail).1 member

/-! ### A new chunk -/

/-- The nodes that `newChunk` makes, the last one first. -/
def nodesFrom (base : Nat) : Nat → List Nat
  | 0 => []
  | n + 1 => (base + n) :: nodesFrom base n

theorem nodesFrom_length (base n : Nat) : (nodesFrom base n).length = n := by
  induction n with
  | zero => rfl
  | succ n ih => rw [nodesFrom, List.length_cons, ih]

theorem nodesFrom_count (base n : Nat) : (nodesFrom base n).count x = if base ≤ x ∧ x < base + n then 1 else 0 := by
  induction n with
  | zero => rw [if_neg (by omega)]; rfl
  | succ n ih =>
    rw [nodesFrom, List.count_cons, ih, beq_eq_decide]
    simp only [decide_eq_true_eq]
    split <;> split <;> split <;> omega

theorem nodesFrom_path (Next : Nat → Option Nat) (node n : Nat) (linked : ∀ k < n, Next (node + k) = if k = 0 then none else some (node + k - 1)) :
    Linked Next (if n = 0 then none else some (node + n - 1)) (nodesFrom node n) := by
  induction n with
  | zero => exact if_pos rfl
  | succ n ih =>
    refine ⟨by rw [if_neg (by omega)]; rfl, ?_⟩
    rw [linked n (Nat.lt_succ_self n)]
    exact ih fun k lt => linked k (Nat.lt_succ_of_lt lt)

theorem newChunk_is (s : Pools) : IsChunk (newChunk s).1.Next (newChunk s).2 (nodesFrom s.created objectCountPerChunk) := by
  refine ⟨?_, nodesFrom_length _ _⟩
  have path := nodesFrom_path (newChunk s).1.Next s.created objectCountPerChunk fun k lt => ?_
  · exact path
  · show (if s.created ≤ s.created + k ∧ s.created + k < s.created + objectCountPerChunk then _ else _) = _
    rw [if_pos ⟨Nat.le_add_right _ _, Nat.add_lt_add_left lt _⟩]
    by_cases first : k = 0
    · rw [if_pos (by omega), if_pos first]
    · rw [if_neg (by omega), if_neg first]

end WanNet.TlsObjectPool
