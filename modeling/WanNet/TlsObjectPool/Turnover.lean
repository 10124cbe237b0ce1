import WanNet.TlsObjectPool.Bookkeeping

/-!
Where the nodes of `TlsObjectPool` are while threads come and go.
-/

namespace WanNet.TlsObjectPool
open Transition Threads

def OnList (Next : Nat → Option Nat) (top : Option Nat) (x : Nat) : Prop := ∃ list, Linked Next top list ∧ x ∈ list

/-- The lists a thread has: that of its pool, in `Free` both halves of it, and in `PreCreateChunk` the
chunk just made. A thread that has ended has none. -/
def Pool.lists (t : Pool) : List (Option Nat) :=
  match t.pc with
  | .ended => []
  | .freeChunk newTop => [t.mTop, newTop]
  | .storeChunk chunkTop _ => [t.mTop, chunkTop]
  | _ => [t.mTop]

/-- Handed out, with a live thread, or in a chunk of the manager's. -/
def Located (s : Pools) (x : Nat) : Prop :=
  x ∈ s.held ∨ (∃ t ∈ s.threads, ∃ top ∈ t.lists, OnList s.Next top x) ∨
    ∃ k < s.mChunkInManagerCount, OnList s.Next (s.mChunks k) x

def EndsEmpty (s : Pools) : Label → Prop
  | .exit i => ∀ t ∈ s.threads[i]?, t.mTop = none
  | _ => True

instance (s : Pools) (l : Label) : Decidable (EndsEmpty s l) :=
  match l with
  | .exit i => inferInstanceAs (Decidable (∀ t ∈ s.threads[i]?, t.mTop = none))
  | .start | .alloc _ | .free _ _ | .preCreateChunk _ _ | .thread _ => .isTrue trivial

variable {s u : Pools} {t : Pool} {i x : Nat} {own chunk lost : List Nat} {chunks : List (List Nat)}
  {hands : List (List Nat × List Nat)} {tr : List (Pools × Label)}

theorem Pool.Keeps.on_lists {Next : Nat → Option Nat} (keeps : t.Keeps Next own chunk) (member : x ∈ own ∨ x ∈ chunk) :
    ∃ top ∈ t.lists, OnList Next top x := by
  obtain ⟨mTop, mHalfTop, mSize, pc⟩ := t
  cases pc with
  | idle | createChunk =>
    obtain ⟨ord, rfl⟩ := keeps
    rcases member with member | member
    · exact ⟨mTop, List.mem_cons_self, own, ord.path, member⟩
    · cases member
  | allocChunk | newChunk =>
    obtain ⟨-, rfl, rfl⟩ := keeps
    rcases member with member | member <;> cases member
  | ended =>
    obtain ⟨rfl, rfl⟩ := keeps
    rcases member with member | member <;> cases member
  | freeChunk newTop =>
    obtain ⟨upper, lower, -⟩ := keeps
    rcases member with member | member
    · exact ⟨newTop, List.mem_cons_of_mem _ List.mem_cons_self, own, lower.1, member⟩
    · exact ⟨mTop, List.mem_cons_self, chunk, upper.1, member⟩
  | storeChunk chunkTop chunkCount =>
    obtain ⟨ord, is⟩ := keeps
    rcases member with member | member
    · exact ⟨mTop, List.mem_cons_self, own, ord.path, member⟩
    · exact ⟨chunkTop, List.mem_cons_of_mem _ List.mem_cons_self, chunk, is.1, member⟩

/-- A node that is with no ended thread is where it can be found. -/
theorem Placed.located (placed : Placed s hands chunks lost) (new : x < s.created) (kept : x ∉ lost) : Located s x := by
  have owned := placed.owned x
  have one : made s x = 1 := if_pos new
  have none := List.count_eq_zero.mpr kept
  by_cases out : x ∈ s.held
  · exact .inl out
  have not_out := List.count_eq_zero.mpr out
  by_cases stored : total (List.count x) chunks = 0
  · have some_hand : 0 < total (inHand x) hands := by omega
    obtain ⟨hand, listed, has⟩ := exists_of_total_pos some_hand
    obtain ⟨i, at_h⟩ := List.mem_iff_getElem?.mp listed
    have lt := (List.getElem?_eq_some_iff.mp at_h).1
    rw [placed.threads] at lt
    have at_i := List.getElem?_eq_getElem lt
    have member : x ∈ hand.1 ∨ x ∈ hand.2 := by
      unfold inHand at has
      rcases Nat.eq_zero_or_pos (hand.1.count x) with no | yes
      · exact .inr (List.count_pos_iff.mp (by omega))
      · exact .inl (List.count_pos_iff.mp yes)
    obtain ⟨top, has_top, on_list⟩ := (placed.keeps i _ hand.1 hand.2 at_i at_h).on_lists member
    exact .inr (.inl ⟨_, List.mem_of_getElem? at_i, top, has_top, on_list⟩)
  · obtain ⟨c, listed, has⟩ := exists_of_total_pos (Nat.pos_of_ne_zero stored)
    obtain ⟨k, at_k⟩ := List.mem_iff_getElem?.mp listed
    have lt := (List.getElem?_eq_some_iff.mp at_k).1
    exact .inr (.inr ⟨k, by rw [placed.count]; exact lt, c, (placed.stored k c at_k).1, List.count_pos_iff.mp has⟩)

theorem none_lost (run : Run pools EndsEmpty tr s) : Accounted [] s := by
  refine run.invariant_state (I := Accounted []) (fun s start => ?_) fun s l u accounted empty h => ?_
  · obtain ⟨Next, rfl⟩ := start
    exact .inl ⟨rfl, [], [], rfl, nofun, rfl, nofun, fun _ => rfl, rfl, Nat.zero_le _⟩
  · obtain ⟨lost, after, same⟩ := step_accounted accounted h
    have none : lost = [] := by
      apply same
      rintro i t rfl at_i
      exact empty t at_i
    exact none ▸ after

/-- As long as threads end with empty pools, every node is handed out, with a live thread or with the
manager, until there are too many chunks and the process ends. -/
theorem nodes_located (run : Run pools EndsEmpty tr s) (alive : s.crashed = false) : ∀ x < s.created, Located s x := by
  intro x new
  rcases none_lost run with ⟨-, hands, chunks, placed⟩ | ⟨crashed, -⟩
  · exact placed.located new List.not_mem_nil
  · cases alive.symm.trans crashed

/-- A thread with a chunk, and another that comes and goes without one. -/
theorem nodes_located_beside_idle_thread : ∃ (tr : List (Pools × Label)) (s : Pools),
    tr.map Prod.snd = [.start, .alloc 0, .thread 0, .thread 0, .start, .exit 1] ∧ s.created = 500 ∧ Located s 0 := by
  have along : Along pools EndsEmpty { Next := fun _ => none } [.start, .alloc 0, .thread 0, .thread 0, .start, .exit 1] := by
    decide +kernel
  obtain ⟨s, reached, run⟩ := Run.along (.init (S := pools) ⟨_, rfl⟩) along
  have facts : (exec pools { Next := fun _ => none } [.start, .alloc 0, .thread 0, .thread 0, .start, .exit 1]).map
      (fun s => (s.created, s.crashed)) = some (500, false) := by decide +kernel
  rw [reached] at facts
  simp only [Option.map_some, Option.some.injEq, Prod.mk.injEq] at facts
  obtain ⟨created, alive⟩ := facts
  exact ⟨_, s, trace_labels reached, created, nodes_located run alive 0 (by rw [created]; decide)⟩

/-- A thread that ends with the rest of its chunk takes 499 nodes with it. -/
theorem nodes_lost_with_thread : ∃ tr s, Run pools Free tr s ∧ s.crashed = false ∧ ∃ x < s.created, ¬ Located s x := by
  have along : Along pools Free { Next := fun _ => none } [.start, .alloc 0, .thread 0, .thread 0, .exit 0] := by decide +kernel
  obtain ⟨s, reached, run⟩ := Run.along (.init (S := pools) ⟨_, rfl⟩) along
  have facts : (exec pools { Next := fun _ => none } [.start, .alloc 0, .thread 0, .thread 0, .exit 0]).map
      (fun s => (s.created, s.crashed, s.held, s.threads, s.mChunkInManagerCount)) =
        some (500, false, [499], [⟨some 498, none, 499, .ended⟩], 0) := by decide +kernel
  rw [reached] at facts
  simp only [Option.map_some, Option.some.injEq, Prod.mk.injEq] at facts
  obtain ⟨created, alive, held, threads, chunks⟩ := facts
  refine ⟨_, s, run, alive, 0, by rw [created]; decide, ?_⟩
  rintro (out | ⟨t, member, top, has_top, -⟩ | ⟨k, stored, -⟩)
  · rw [held] at out
    exact absurd out (by decide)
  · rw [threads] at member
    rw [List.mem_singleton.mp member] at has_top
    cases has_top
  · rw [chunks] at stored
    cases stored

end WanNet.TlsObjectPool
