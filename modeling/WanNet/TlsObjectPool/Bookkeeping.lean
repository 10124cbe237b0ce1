import Mathlib.Data.List.Nodup
import WanNet.TlsObjectPool.Lists

/-!
The sizes, cuts and chunks of `TlsObjectPool` along every run.
-/

namespace WanNet.TlsObjectPool
open Transition Threads

variable {s u : Pools} {t v : Pool} {i node : Nat} {own own' chunk chunk' lost lost' : List Nat} {chunks chunks' : List (List Nat)}
  {hands : List (List Nat × List Nat)} {l : Label}

theorem Placed.hand (placed : Placed s hands chunks lost) (at_i : s.threads[i]? = some t) :
    ∃ own chunk, hands[i]? = some (own, chunk) ∧ t.Keeps s.Next own chunk := by
  have lt := (List.getElem?_eq_some_iff.mp at_i).1
  rw [← placed.threads] at lt
  exact ⟨_, _, List.getElem?_eq_getElem lt, placed.keeps i t _ _ at_i (List.getElem?_eq_getElem lt)⟩

theorem Placed.nodup (placed : Placed s hands chunks lost) (at_h : hands[i]? = some (own, chunk)) : own.Nodup := by
  refine List.nodup_iff_count_le_one.mpr fun x => ?_
  have := placed.owned x
  have mine : own.count x + chunk.count x ≤ total (inHand x) hands := le_total (w := inHand x) (List.mem_of_getElem? at_h)
  have : made s x ≤ 1 := by
    unfold made
    split <;> omega
  omega

theorem Placed.held_made (placed : Placed s hands chunks lost) (member : node ∈ s.held) : made s node = 1 := by
  have := placed.owned node
  have := List.count_pos_iff.mpr member
  unfold made at *
  split <;> split at * <;> omega

theorem Placed.fits (placed : Placed s hands chunks lost) (at_h : hands[i]? = some (own, chunk)) :
    chunk.length + objectCountPerChunk * chunks.length ≤ s.created := by
  have lengths : ∀ l : List (List Nat), (∀ c ∈ l, c.length = objectCountPerChunk) → l.flatten.length = objectCountPerChunk * l.length := by
    intro l all
    induction l with
    | nil => rfl
    | cons c l ih =>
      rw [List.flatten_cons, List.length_append, all c (.head _), ih fun d member => all d (.tail _ member), List.length_cons, Nat.mul_succ]
      omega
  have stored := lengths chunks fun c member => by
    obtain ⟨k, at_k⟩ := List.mem_iff_getElem?.mp member
    exact (placed.stored k c at_k).2
  have flat (x : Nat) : (chunk ++ chunks.flatten).count x ≤ made s x := by
    have := placed.owned x
    have mine : own.count x + chunk.count x ≤ total (inHand x) hands := le_total (w := inHand x) (List.mem_of_getElem? at_h)
    have : chunks.flatten.count x = total (List.count x) chunks := List.count_flatten
    rw [List.count_append]
    omega
  have nodup : (chunk ++ chunks.flatten).Nodup := List.nodup_iff_count_le_one.mpr fun x => by
    have := flat x
    unfold made at this
    split at this <;> omega
  have small : (chunk ++ chunks.flatten).Subperm (List.range s.created) := by
    refine List.subperm_of_subset nodup fun x member => List.mem_range.mpr ?_
    by_contra beyond
    have := flat x
    have := List.count_pos_iff.mpr member
    unfold made at *
    rw [if_neg beyond] at *
    omega
  have := small.length_le
  rw [List.length_append, List.length_range, stored] at this
  exact this

/-- A chunk in hand is one of those made and not in the manager. -/
theorem Placed.room (placed : Placed s hands chunks lost) (at_h : hands[i]? = some (own, chunk)) (is : chunk.length = objectCountPerChunk) :
    chunks.length < s.mChunkTotalCount := by
  have fits := placed.fits at_h
  rw [is, placed.total_chunks.1] at fits
  simp only [objectCountPerChunk] at fits
  omega

theorem takeTop_eq {top : Nat} (is : t.mTop = some top) :
    takeTop s t = ({ s with held := top :: s.held }, { t with mTop := s.Next top, mSize := dec32 t.mSize, pc := .idle }) := by
  simp only [takeTop, is]

/-- `Alloc` from a list that is not empty. -/
theorem Placed.take (placed : Placed s hands chunks lost) (at_i : s.threads[i]? = some t) (at_h : hands[i]? = some (node :: own, []))
    (ord : Orderly s.Next t (node :: own)) :
    Placed (Pools.put i (takeTop s t)) (hands.set i (own, [])) chunks lost ∧ (takeTop s t).1.crashed = s.crashed := by
  obtain ⟨top, rest⟩ := ord.pop
  rw [takeTop_eq top]
  refine ⟨placed.move (u := { s with held := node :: s.held }) at_i at_h (fun _ => .inl rfl) ⟨rest, rfl⟩ placed.count
    (fun k c at_k => .inl ⟨at_k, rfl⟩) (fun x => ?_) placed.total_chunks, rfl⟩
  show own.count x + 0 + _ + (node :: s.held).count x + _ + made s x = (node :: own).count x + 0 + _ + s.held.count x + _ + made s x
  rw [List.count_cons, List.count_cons]
  omega

/-- `Alloc` from a chunk that comes from the manager or was made. -/
theorem Placed.takeChunk {top : Option Nat} (placed : Placed s hands chunks lost) (at_i : s.threads[i]? = some t)
    (at_h : hands[i]? = some ([], [])) (is : IsChunk u.Next top chunk) (same : u.threads = s.threads ∧ u.held = s.held)
    (changed : ∀ x, u.Next x = s.Next x ∨ s.created ≤ x) (count : u.mChunkInManagerCount = chunks'.length)
    (stored : ∀ (k : Nat) (c : List Nat), chunks'[k]? = some c → chunks[k]? = some c ∧ u.mChunks k = s.mChunks k)
    (owned : ∀ x, chunk.count x + total (List.count x) chunks' + made s x = total (List.count x) chunks + made u x)
    (total_chunks : u.created = objectCountPerChunk * u.mChunkTotalCount ∧ u.mChunkTotalCount ≤ maxChunkCount) :
    ∃ own, Placed (Pools.put i (takeChunk u t top)) (hands.set i (own, [])) chunks' lost := by
  obtain ⟨node, rest, rfl⟩ := is.cons
  obtain ⟨start, left⟩ := (is.orderly t).pop
  obtain ⟨threads, held⟩ := same
  refine ⟨rest, ?_⟩
  rw [TlsObjectPool.takeChunk, takeTop_eq start, Pools.put, threads]
  refine placed.move (u := { u with held := node :: u.held }) at_i at_h (fun x => (changed x).imp_right fun new => .inr (.inr new)) ⟨left, rfl⟩
    count (fun k c at_k => .inl (stored k c at_k)) (fun x => ?_) total_chunks
  have := owned x
  show rest.count x + 0 + _ + (node :: u.held).count x + _ + made s x = 0 + 0 + _ + s.held.count x + _ + made u x
  rw [List.count_cons] at this
  rw [List.count_cons, held]
  omega

theorem Placed.store {top : Option Nat} (placed : Placed s hands chunks lost) (at_i : s.threads[i]? = some t)
    (at_h : hands[i]? = some (own, chunk)) (is : IsChunk s.Next top chunk) (keeps : v.Keeps s.Next own []) :
    Placed (Pools.put i (store s top, v)) (hands.set i (own, [])) (chunks ++ [chunk]) lost := by
  have room := placed.room at_h is.2
  have bound := placed.total_chunks.2
  have few : s.mChunkInManagerCount + 1 < 2 ^ 32 := by
    rw [placed.count]
    simp only [maxChunkCount] at bound
    omega
  refine placed.move (u := TlsObjectPool.store s top) at_i at_h (fun _ => .inl rfl) keeps ?_ (fun k c at_k => ?_) (fun x => ?_) placed.total_chunks
  · show inc32 s.mChunkInManagerCount = _
    rw [inc32_eq few, placed.count, List.length_append]
    rfl
  · rcases at_append_one at_k with old | ⟨rfl, rfl⟩
    · have lt := (List.getElem?_eq_some_iff.mp old).1
      exact .inl ⟨old, if_neg (by rw [placed.count]; exact Nat.ne_of_lt lt)⟩
    · refine .inr ?_
      show IsChunk s.Next (if _ = s.mChunkInManagerCount then top else _) _
      rw [if_pos placed.count.symm]
      exact is
  · show own.count x + 0 + _ + s.held.count x + _ + made s x = own.count x + chunk.count x + _ + s.held.count x + _ + made s x
    rw [total_append_one]
    omega

theorem made_newChunk (s : Pools) (x : Nat) : made (newChunk s).1 x = made s x + (nodesFrom s.created objectCountPerChunk).count x := by
  rw [nodesFrom_count]
  show (if x < s.created + objectCountPerChunk then 1 else 0) = (if x < s.created then 1 else 0) + _
  split <;> split <;> split <;> omega

/-- Either the assertion on `mChunkTotalCount` fails, or there is one more chunk. -/
theorem Placed.newChunk_total (placed : Placed s hands chunks lost) :
    (newChunk s).1.mChunkTotalCount = s.mChunkTotalCount + 1 ∧
      ((newChunk s).1.crashed = false → (newChunk s).1.created = objectCountPerChunk * (newChunk s).1.mChunkTotalCount ∧
        (newChunk s).1.mChunkTotalCount ≤ maxChunkCount) ∧
      ((newChunk s).1.crashed = true → maxChunkCount < (newChunk s).1.mChunkTotalCount) := by
  obtain ⟨created, bound⟩ := placed.total_chunks
  have total : (newChunk s).1.mChunkTotalCount = s.mChunkTotalCount + 1 := by
    refine inc32_eq ?_
    simp only [maxChunkCount] at bound
    omega
  refine ⟨total, fun alive => ⟨?_, ?_⟩, of_decide_eq_true⟩
  · show s.created + objectCountPerChunk = _
    rw [total, created, Nat.mul_succ]
  · exact Nat.le_of_not_lt (of_decide_eq_false alive)

theorem Placed.free (placed : Placed s hands chunks lost) (at_i : s.threads[i]? = some t) (at_h : hands[i]? = some (own, []))
    (ord : Orderly s.Next t own) (idle : t.pc = .idle) (member : node ∈ s.held) (alive : s.crashed = false) :
    (∃ own' chunk, Placed (Pools.put i (free { s with held := s.held.erase node } t node)) (hands.set i (own', chunk)) chunks lost) ∧
      (TlsObjectPool.free { s with held := s.held.erase node } t node).1.crashed = false := by
  have owned := placed.owned
  have out := List.count_pos_iff.mpr member
  have fresh : node ∉ own := fun inside => by
    have := owned node
    have := placed.held_made member
    have mine : own.count node + ([] : List Nat).count node ≤ total (inHand node) hands := le_total (w := inHand node) (List.mem_of_getElem? at_h)
    have := List.count_pos_iff.mpr inside
    omega
  have erased (x : Nat) : (s.held.erase node).count x + (if node = x then 1 else 0) = s.held.count x := by
    rw [List.count_erase, beq_eq_decide]
    simp only [decide_eq_true_eq]
    split
    next same => rw [same] at out; omega
    next => omega
  have size : inc32 t.mSize = own.length + 1 := by
    have := ord.words
    rw [inc32_eq (by omega), ord.size]
  have pushed := ord.push fresh
  have balance (x : Nat) : (node :: own).count x + (s.held.erase node).count x = own.count x + s.held.count x := by
    have := erased x
    rw [List.count_cons, beq_eq_decide]
    simp only [decide_eq_true_eq]
    omega
  have changed (x : Nat) : (if x = node then t.mTop else s.Next x) = s.Next x ∨ x ∈ own ∨ x ∈ s.held ∨ s.created ≤ x := by
    by_cases same : x = node
    · exact .inr (.inr (.inl (same ▸ member)))
    · exact .inl (if_neg same)
  unfold TlsObjectPool.free
  simp only [size]
  split
  next full =>
    have split := ord.split (List.nodup_cons.mpr ⟨fresh, placed.nodup at_h⟩) full
    obtain ⟨chunk, below, halfTop, is, half, inside, upper, lower⟩ := split
    simp only [half]
    refine ⟨⟨below, chunk, ?_⟩, alive⟩
    refine placed.move (u := { s with
        held := s.held.erase node
        Next := fun a => if a = halfTop then none else if a = node then t.mTop else s.Next a }) at_i at_h (fun x => ?_)
      ⟨upper, lower, full ▸ rfl⟩ placed.count (fun k c at_k => .inl ⟨at_k, rfl⟩) (fun x => ?_) placed.total_chunks
    · by_cases same : x = halfTop
      · rcases List.mem_cons.mp inside with rfl | inside
        · exact .inr (.inr (.inl (same ▸ member)))
        · exact .inr (.inl (same ▸ inside))
      · show (if x = halfTop then none else if x = node then t.mTop else s.Next x) = s.Next x ∨ _
        rw [if_neg same]
        exact changed x
    · have := balance x
      rw [is, List.count_append] at this
      show below.count x + chunk.count x + _ + (s.held.erase node).count x + _ + made s x = own.count x + 0 + _ + s.held.count x + _ + made s x
      omega
  next room =>
    have ord' (mHalfTop : Option Nat) (half : objectCountPerChunk < own.length + 1 → ∃ above halfTop below,
        node :: own = above ++ halfTop :: below ∧ mHalfTop = some halfTop ∧ below.length = objectCountPerChunk) :
        Placed (Pools.put i ({ s with held := s.held.erase node, Next := fun a => if a = node then t.mTop else s.Next a },
          { t with mTop := some node, mSize := own.length + 1, mHalfTop := mHalfTop })) (hands.set i (node :: own, [])) chunks lost := by
      refine placed.move (u := { s with held := s.held.erase node, Next := fun a => if a = node then t.mTop else s.Next a }) at_i at_h
        changed ?_ placed.count (fun k c at_k => .inl ⟨at_k, rfl⟩) (fun x => ?_) placed.total_chunks
      · have := ord.room
        simp only [Pool.Keeps, idle]
        refine ⟨⟨pushed, rfl, ?_, half⟩, trivial⟩
        rw [List.length_cons]
        omega
      · have := balance x
        show (node :: own).count x + 0 + _ + (s.held.erase node).count x + _ + made s x = own.count x + 0 + _ + s.held.count x + _ + made s x
        omega
    split
    next crossing =>
      exact ⟨⟨node :: own, [], ord' (some node) fun _ => ⟨[], node, own, rfl, rfl, Nat.succ.inj crossing⟩⟩, alive⟩
    next other =>
      refine ⟨⟨node :: own, [], ord' t.mHalfTop fun many => ?_⟩, alive⟩
      obtain ⟨above, halfTop, below, is, half, length⟩ := ord.half (by omega)
      exact ⟨node :: above, halfTop, below, by rw [is]; rfl, half, length⟩

/-! ### Steps and runs -/

/-- The nodes are in their places, or an assertion has failed with too many chunks. -/
def Sound (s : Pools) : Prop :=
  s.crashed = false ∧ (∃ hands chunks lost, Placed s hands chunks lost) ∨ s.crashed = true ∧ maxChunkCount < s.mChunkTotalCount

/-- So they are, and those of `lost` alone are with threads that have ended. -/
def Accounted (lost : List Nat) (s : Pools) : Prop :=
  s.crashed = false ∧ (∃ hands chunks, Placed s hands chunks lost) ∨ s.crashed = true ∧ maxChunkCount < s.mChunkTotalCount

theorem Accounted.sound (accounted : Accounted lost s) : Sound s := by
  rcases accounted with ⟨alive, hands, chunks, placed⟩ | dead
  · exact .inl ⟨alive, hands, chunks, lost, placed⟩
  · exact .inr dead

theorem idle_at (h : s.idle i = some t) : s.threads[i]? = some t ∧ t.pc = .idle := by
  obtain ⟨at_i, idle⟩ := Option.filter_eq_some_iff.mp h
  exact ⟨at_i, of_decide_eq_true idle⟩

theorem Placed.idle_hand (placed : Placed s hands chunks lost) (at_i : s.threads[i]? = some t) (idle : t.pc = .idle) :
    ∃ own, hands[i]? = some (own, []) ∧ Orderly s.Next t own := by
  obtain ⟨own, chunk, at_h, keeps⟩ := placed.hand at_i
  simp only [Pool.Keeps, idle] at keeps
  obtain ⟨ord, rfl⟩ := keeps
  exact ⟨own, at_h, ord⟩

theorem Placed.turn (placed : Placed s hands chunks lost) (at_i : s.threads[i]? = some t) (at_h : hands[i]? = some (own, chunk))
    (keeps : v.Keeps s.Next own chunk) : Placed (Pools.put i (s, v)) (hands.set i (own, chunk)) chunks lost :=
  placed.move at_i at_h (fun _ => .inl rfl) keeps placed.count (fun _ _ at_k => .inl ⟨at_k, rfl⟩) (fun _ => rfl) placed.total_chunks

theorem Placed.start (placed : Placed s hands chunks lost) :
    Placed { s with threads := s.threads ++ [{}] } (hands ++ [([], [])]) chunks lost := by
  refine ⟨?_, fun i t own chunk at_i at_h => ?_, placed.count, placed.stored, fun x => ?_, placed.total_chunks⟩
  · rw [List.length_append, List.length_append, placed.threads]
    rfl
  · rcases at_append_one at_i with old | ⟨rfl, rfl⟩
    · rw [List.getElem?_append_left (by rw [placed.threads]; exact (List.getElem?_eq_some_iff.mp old).1)] at at_h
      exact placed.keeps i t own chunk old at_h
    · rw [← placed.threads, List.getElem?_concat_length] at at_h
      cases at_h
      exact ⟨⟨rfl, rfl, by decide, nofun⟩, rfl⟩
  · rw [total_append_one]
    exact placed.owned x

theorem Placed.exit (placed : Placed s hands chunks lost) (at_i : s.threads[i]? = some t) (at_h : hands[i]? = some (own, [])) :
    Placed (Pools.put i (s, { t with pc := .ended })) (hands.set i ([], [])) chunks (own ++ lost) := by
  refine placed.move at_i at_h (fun _ => .inl rfl) ⟨rfl, rfl⟩ placed.count (fun _ _ at_k => .inl ⟨at_k, rfl⟩) (fun x => ?_) placed.total_chunks
  show 0 + 0 + _ + s.held.count x + (own ++ lost).count x + made s x = own.count x + 0 + _ + s.held.count x + lost.count x + made s x
  rw [List.count_append]
  omega

theorem takeChunk_fields {top : Option Nat} (is : IsChunk u.Next top chunk) : (takeChunk u t top).1.crashed = u.crashed ∧
    (takeChunk u t top).1.mChunkTotalCount = u.mChunkTotalCount := by
  obtain ⟨node, rest, rfl⟩ := is.cons
  rw [takeChunk, takeTop_eq is.1.1]
  exact ⟨rfl, rfl⟩

/-- The last chunk of the manager's goes to `Alloc`. -/
theorem Placed.allocChunk (placed : Placed s hands chunks lost) (at_i : s.threads[i]? = some t) (at_h : hands[i]? = some ([], []))
    (some_chunks : s.mChunkInManagerCount ≠ 0) :
    (TlsObjectPool.takeChunk { s with mChunkInManagerCount := dec32 s.mChunkInManagerCount } t
      (s.mChunks (dec32 s.mChunkInManagerCount))).1.crashed = s.crashed ∧
    ∃ hands' chunks', Placed (Pools.put i (TlsObjectPool.takeChunk { s with mChunkInManagerCount := dec32 s.mChunkInManagerCount } t
      (s.mChunks (dec32 s.mChunkInManagerCount)))) hands' chunks' lost := by
  have counted := placed.count
  have word : s.mChunkInManagerCount < 2 ^ 32 := by
    have fits := placed.fits at_h
    obtain ⟨created, bound⟩ := placed.total_chunks
    rw [created, List.length_nil] at fits
    simp only [objectCountPerChunk, maxChunkCount] at fits bound
    omega
  obtain ⟨rest, last, rfl⟩ : ∃ rest last, chunks = rest ++ [last] :=
    ⟨_, _, (List.dropLast_append_getLast (l := chunks) (by rintro rfl; exact some_chunks counted)).symm⟩
  rw [List.length_append, List.length_singleton] at counted
  have index : dec32 s.mChunkInManagerCount = rest.length := by rw [dec32_eq (by omega) word]; omega
  have stored := placed.stored rest.length last (by simp)
  rw [index]
  have kept (k : Nat) (c : List Nat) (at_k : rest[k]? = some c) : (rest ++ [last])[k]? = some c := by
    rw [List.getElem?_append_left (List.getElem?_eq_some_iff.mp at_k).1]
    exact at_k
  have owned (x : Nat) : last.count x + total (List.count x) rest + made s x = total (List.count x) (rest ++ [last]) + made s x := by
    rw [total_append_one]
    omega
  obtain ⟨own, placed⟩ := placed.takeChunk (u := { s with mChunkInManagerCount := rest.length }) at_i at_h stored ⟨rfl, rfl⟩
    (fun _ => .inl rfl) rfl (fun k c at_k => ⟨kept k c at_k, rfl⟩) owned placed.total_chunks
  exact ⟨(takeChunk_fields (u := { s with mChunkInManagerCount := rest.length }) stored).1, _, _, placed⟩

theorem Placed.newChunk (placed : Placed s hands chunks lost) (at_i : s.threads[i]? = some t) (at_h : hands[i]? = some ([], [])) :
    Accounted lost (Pools.put i (TlsObjectPool.takeChunk (newChunk s).1 t (newChunk s).2)) := by
  obtain ⟨alive, counts, dies⟩ := placed.newChunk_total
  obtain ⟨crashed, counted⟩ := takeChunk_fields (t := t) (newChunk_is s)
  cases ends : (TlsObjectPool.newChunk s).1.crashed with
  | true =>
    refine .inr ⟨crashed.trans ends, ?_⟩
    show maxChunkCount < (TlsObjectPool.takeChunk _ _ _).1.mChunkTotalCount
    rw [counted]
    exact dies ends
  | false =>
    have changed (x : Nat) : (TlsObjectPool.newChunk s).1.Next x = s.Next x ∨ s.created ≤ x := by
      by_cases new : s.created ≤ x
      · exact .inr new
      · exact .inl (if_neg fun inside => new inside.1)
    have owned (x : Nat) : (nodesFrom s.created objectCountPerChunk).count x + total (List.count x) chunks + made s x =
        total (List.count x) chunks + made (TlsObjectPool.newChunk s).1 x := by
      rw [made_newChunk]
      omega
    obtain ⟨own, placed⟩ := placed.takeChunk at_i at_h (newChunk_is s) ⟨rfl, rfl⟩ changed placed.count (fun _ _ at_k => ⟨at_k, rfl⟩) owned
      (counts ends)
    exact .inl ⟨crashed.trans ends, _, _, placed⟩

/-- A new chunk waits for the manager's lock. -/
theorem Placed.createChunk {chunkCount : Nat} (placed : Placed s hands chunks lost) (at_i : s.threads[i]? = some t)
    (at_h : hands[i]? = some (own, [])) (ord : Orderly s.Next t own) :
    Accounted lost (Pools.put i ((TlsObjectPool.newChunk s).1, { t with pc := .storeChunk (TlsObjectPool.newChunk s).2 chunkCount })) := by
  obtain ⟨-, counts, dies⟩ := placed.newChunk_total
  cases ends : (TlsObjectPool.newChunk s).1.crashed with
  | true => exact .inr ⟨ends, dies ends⟩
  | false =>
    have old (x : Nat) (member : x ∈ own) : x < s.created := by
      have := placed.owned x
      have := List.count_pos_iff.mpr member
      have mine : own.count x + ([] : List Nat).count x ≤ total (inHand x) hands := le_total (w := inHand x) (List.mem_of_getElem? at_h)
      unfold made at *
      split at *
      · assumption
      · omega
    have kept : Orderly (TlsObjectPool.newChunk s).1.Next { t with pc := .storeChunk (TlsObjectPool.newChunk s).2 chunkCount } own := by
      have same : Orderly (TlsObjectPool.newChunk s).1.Next t own := ord.congr fun x member => if_neg fun inside => by
        have := old x member
        omega
      exact ⟨same.path, same.size, same.room, same.half⟩
    refine .inl ⟨ends, _, _, placed.move (u := (TlsObjectPool.newChunk s).1) at_i at_h (fun x => ?_) ⟨kept, newChunk_is s⟩ placed.count
      (fun _ _ at_k => .inl ⟨at_k, rfl⟩) (fun x => ?_) (counts ends)⟩
    · by_cases new : s.created ≤ x
      · exact .inr (.inr (.inr new))
      · exact .inl (if_neg fun inside => new inside.1)
    · rw [made_newChunk]
      show own.count x + (nodesFrom s.created objectCountPerChunk).count x + _ + s.held.count x + _ + made s x =
        own.count x + 0 + _ + s.held.count x + _ + (made s x + (nodesFrom s.created objectCountPerChunk).count x)
      omega

theorem next_accounted {r : Pools × Pool} (placed : Placed s hands chunks lost) (alive : s.crashed = false) (at_i : s.threads[i]? = some t)
    (h : next s t = some r) : Accounted lost (Pools.put i r) := by
  obtain ⟨own, chunk, at_h, keeps⟩ := placed.hand at_i
  obtain ⟨mTop, mHalfTop, mSize, pc⟩ := t
  cases pc with
  | idle | ended => cases h
  | allocChunk =>
    obtain ⟨top, rfl, rfl⟩ : mTop = none ∧ own = [] ∧ chunk = [] := keeps
    simp only [next] at h
    split at h
    · obtain rfl := Option.some.inj h
      exact .inl ⟨alive, _, _, placed.turn at_i at_h ⟨top, rfl, rfl⟩⟩
    next some_chunks =>
      obtain ⟨is, hands', chunks', placed⟩ := placed.allocChunk at_i at_h some_chunks
      obtain rfl := Option.some.inj h
      exact .inl ⟨is.trans alive, _, _, placed⟩
  | newChunk =>
    obtain ⟨-, rfl, rfl⟩ : mTop = none ∧ own = [] ∧ chunk = [] := keeps
    simp only [next] at h
    obtain rfl := Option.some.inj h
    exact placed.newChunk at_i at_h
  | freeChunk newTop =>
    obtain ⟨upper, lower, full⟩ : IsChunk s.Next mTop chunk ∧ IsChunk s.Next newTop own ∧ mSize = maxObjectCountPerThread := keeps
    obtain rfl := Option.some.inj h
    refine .inl ⟨alive, _, _, placed.store at_i at_h upper ⟨⟨lower.1, ?_, by rw [lower.2]; decide, fun many => ?_⟩, rfl⟩⟩
    · simp only [full, lower.2, maxObjectCountPerThread, objectCountPerChunk]
    · exact absurd many (by rw [lower.2]; decide)
  | createChunk chunkCount =>
    obtain ⟨ord, rfl⟩ : Orderly s.Next _ own ∧ chunk = [] := keeps
    cases chunkCount with
    | zero =>
      obtain rfl := Option.some.inj h
      exact .inl ⟨alive, _, _, placed.turn at_i at_h ⟨⟨ord.path, ord.size, ord.room, ord.half⟩, rfl⟩⟩
    | succ chunkCount =>
      simp only [next, Option.some.injEq] at h
      rw [← h]
      exact placed.createChunk at_i at_h ord
  | storeChunk chunkTop chunkCount =>
    obtain ⟨ord, is⟩ : Orderly s.Next _ own ∧ IsChunk s.Next chunkTop chunk := keeps
    obtain rfl := Option.some.inj h
    exact .inl ⟨alive, _, _, placed.store at_i at_h is ⟨⟨ord.path, ord.size, ord.room, ord.half⟩, rfl⟩⟩

theorem Placed.alloc (placed : Placed s hands chunks lost) (alive : s.crashed = false) (at_i : s.threads[i]? = some t) (idle : t.pc = .idle) :
    Accounted lost (Pools.put i (alloc s t)) := by
  obtain ⟨own, at_h, ord⟩ := placed.idle_hand at_i idle
  unfold TlsObjectPool.alloc
  split
  next top =>
    cases own with
    | nil => exact .inl ⟨alive, _, _, placed.turn at_i at_h ⟨top, rfl, rfl⟩⟩
    | cons node rest => cases top.symm.trans ord.path.1
  next node top =>
    cases own with
    | nil => cases top.symm.trans ord.path
    | cons node rest =>
      obtain ⟨placed, same⟩ := placed.take at_i at_h ord
      exact .inl ⟨same.trans alive, _, _, placed⟩

/-- A step loses nodes only when a thread ends with some in its list. -/
theorem step_accounted (accounted : Accounted lost s) (h : pools.step s l = some u) : ∃ lost', Accounted lost' u ∧
    ((∀ i t, l = .exit i → s.threads[i]? = some t → t.mTop = none) → lost' = lost) := by
  have h : step s l = some u := h
  unfold step at h
  rcases accounted with ⟨alive, hands, chunks, placed⟩ | ⟨crashed, -⟩
  · rw [if_neg (by rw [alive]; nofun)] at h
    cases l with
    | start =>
      obtain rfl := Option.some.inj h
      exact ⟨lost, .inl ⟨alive, _, _, placed.start⟩, fun _ => rfl⟩
    | exit i =>
      obtain ⟨t, idle, rfl⟩ := Option.map_eq_some_iff.mp h
      obtain ⟨at_i, idle⟩ := idle_at idle
      obtain ⟨own, at_h, ord⟩ := placed.idle_hand at_i idle
      refine ⟨own ++ lost, .inl ⟨alive, _, _, placed.exit at_i at_h⟩, fun empty => ?_⟩
      cases own with
      | nil => rfl
      | cons node own => cases (empty i t rfl at_i).symm.trans ord.path.1
    | alloc i =>
      obtain ⟨t, idle, rfl⟩ := Option.map_eq_some_iff.mp h
      obtain ⟨at_i, idle⟩ := idle_at idle
      exact ⟨lost, placed.alloc alive at_i idle, fun _ => rfl⟩
    | free i node =>
      simp only at h
      split at h
      next member =>
        obtain ⟨t, idle, rfl⟩ := Option.map_eq_some_iff.mp h
        obtain ⟨at_i, idle⟩ := idle_at idle
        obtain ⟨own, at_h, ord⟩ := placed.idle_hand at_i idle
        obtain ⟨⟨own', chunk, placed⟩, same⟩ := placed.free at_i at_h ord idle member alive
        exact ⟨lost, .inl ⟨same, _, _, placed⟩, fun _ => rfl⟩
      next => cases h
    | preCreateChunk i chunkCount =>
      obtain ⟨t, idle, rfl⟩ := Option.map_eq_some_iff.mp h
      obtain ⟨at_i, idle⟩ := idle_at idle
      obtain ⟨own, at_h, ord⟩ := placed.idle_hand at_i idle
      exact ⟨lost, .inl ⟨alive, _, _, placed.turn at_i at_h ⟨⟨ord.path, ord.size, ord.room, ord.half⟩, rfl⟩⟩, fun _ => rfl⟩
    | thread i =>
      obtain ⟨r, next, rfl⟩ := Option.map_eq_some_iff.mp h
      obtain ⟨t, at_i, next⟩ := Option.bind_eq_some_iff.mp next
      exact ⟨lost, next_accounted placed alive at_i next, fun _ => rfl⟩
  · rw [if_pos crashed] at h
    cases h

theorem step_sound (sound : Sound s) (h : pools.step s l = some u) : Sound u := by
  have accounted : ∃ lost, Accounted lost s := by
    rcases sound with ⟨alive, hands, chunks, lost, placed⟩ | dead
    · exact ⟨lost, .inl ⟨alive, hands, chunks, placed⟩⟩
    · exact ⟨[], .inr dead⟩
  obtain ⟨lost, accounted⟩ := accounted
  obtain ⟨lost', after, -⟩ := step_accounted accounted h
  exact after.sound

theorem run_sound (run : Run pools Free tr s) : Sound s := by
  refine run.invariant_state (fun s start => ?_) fun s l u sound _ h => step_sound sound h
  obtain ⟨Next, rfl⟩ := start
  exact .inl ⟨rfl, [], [], [], rfl, nofun, rfl, nofun, fun _ => rfl, rfl, Nat.zero_le _⟩

/-- About to write to `mChunks[mChunkInManagerCount]`. -/
def Pool.stores (t : Pool) : Bool :=
  match t.pc with
  | .freeChunk _ | .storeChunk _ _ => true
  | _ => false

theorem Placed.stores (placed : Placed s hands chunks lost) (member : t ∈ s.threads) (stores : t.stores) :
    s.mChunkInManagerCount < maxChunkCount := by
  obtain ⟨i, at_i⟩ := List.mem_iff_getElem?.mp member
  obtain ⟨own, chunk, at_h, keeps⟩ := placed.hand at_i
  have whole : chunk.length = objectCountPerChunk := by
    obtain ⟨mTop, mHalfTop, mSize, pc⟩ := t
    cases pc with
    | freeChunk => exact keeps.1.2
    | storeChunk => exact keeps.2.2
    | _ => cases stores
  rw [placed.count]
  exact Nat.lt_of_lt_of_le (placed.room at_h whole) placed.total_chunks.2

/-- Unless the assertion on the number of chunks has ended the process: the pool of a thread in no call
has `mSize` nodes and its `mHalfTop` where `Free` will cut it, the manager has chunks of 500 nodes, no
node is twice in all of these or among the nodes handed out, and the manager has room for a chunk that
is to be stored. -/
theorem pools_in_order (run : Run pools Free tr s) : s.crashed = true ∧ maxChunkCount < s.mChunkTotalCount ∨
    ∃ lists chunks : List (List Nat), lists.length = s.threads.length ∧
      (∀ (i : Nat) (t : Pool) (own : List Nat), s.threads[i]? = some t → lists[i]? = some own → t.pc = .idle →
        Linked s.Next t.mTop own ∧ t.mSize = own.length ∧ (objectCountPerChunk < t.mSize → ∃ above halfTop below,
          own = above ++ halfTop :: below ∧ t.mHalfTop = some halfTop ∧ below.length = objectCountPerChunk)) ∧
      chunks.length = s.mChunkInManagerCount ∧
      (∀ (k : Nat) (c : List Nat), chunks[k]? = some c → Linked s.Next (s.mChunks k) c ∧ c.length = objectCountPerChunk) ∧
      (lists.flatten ++ chunks.flatten ++ s.held).Nodup ∧
      ∀ t ∈ s.threads, t.stores → s.mChunkInManagerCount < maxChunkCount := by
  rcases run_sound run with ⟨-, hands, chunks, lost, placed⟩ | crashed
  · refine .inr ⟨hands.map fun p => p.1 ++ p.2, chunks, ?_, fun i t own at_i at_h idle => ?_, placed.count.symm, placed.stored,
      List.nodup_iff_count_le_one.mpr fun x => ?_, fun t member => placed.stores member⟩
    · rw [List.length_map, placed.threads]
    · obtain ⟨own', at_hand, ord⟩ := placed.idle_hand at_i idle
      rw [List.getElem?_map, at_hand] at at_h
      obtain rfl : own' = own := by simpa using at_h
      refine ⟨ord.path, ord.size, fun many => ord.half ?_⟩
      rw [← ord.size]
      exact many
    · have hand : (hands.map fun p => p.1 ++ p.2).flatten.count x = total (inHand x) hands := by
        rw [List.count_flatten, List.map_map]
        exact congrArg List.sum (List.map_congr_left fun p _ => List.count_append)
      have stored : chunks.flatten.count x = total (List.count x) chunks := List.count_flatten
      have := placed.owned x
      have : made s x ≤ 1 := by
        unfold made
        split <;> omega
      rw [List.count_append, List.count_append]
      omega
  · exact .inl crashed

/-- Thread 0 takes a node of one chunk, thread 1 all of another and makes a third for the manager; thread 0 gets 501
nodes back, and at 1000 gives 500 of them to the manager. Thread 1 takes that chunk, and thread 0 gets its node. -/
def turnover : List Label :=
  [.start, .start, .alloc 0, .thread 0, .thread 0, .alloc 1, .thread 1, .thread 1] ++ List.replicate 499 (.alloc 1) ++
    [.preCreateChunk 1 1, .thread 1, .thread 1, .thread 1] ++ (List.range' 500 500).map (.free 0) ++
    [.free 0 499, .thread 0, .alloc 1, .thread 1, .free 0 499]

theorem chunk_changes_hands : ∃ (tr : List (Pools × Label)) (s : Pools), Run pools Free tr s ∧ tr.map Prod.snd = turnover ∧
    s.threads = [⟨some 499, some 499, 501, .idle⟩, ⟨some 999, none, 499, .idle⟩] ∧ s.mChunkInManagerCount = 1 ∧
    ∃ below own chunk : List Nat, Linked s.Next (some 499) (499 :: below) ∧ Linked s.Next (some 999) own ∧
      Linked s.Next (s.mChunks 0) chunk ∧ below.length = 500 ∧ own.length = 499 ∧ chunk.length = 500 ∧
      (499 :: below ++ own ++ chunk).Nodup := by
  have start : Run pools Free [] { Next := fun _ => none } := .init ⟨_, rfl⟩
  have facts : (exec pools { Next := fun _ => none } turnover).map (fun s => (s.threads, s.mChunkInManagerCount, s.crashed, s.held)) =
      some ([⟨some 499, some 499, 501, .idle⟩, ⟨some 999, none, 499, .idle⟩], 1, false, []) := by decide +kernel
  obtain ⟨s, reached, values⟩ := Option.map_eq_some_iff.mp facts
  obtain ⟨threads, inManager, alive, held⟩ : s.threads = _ ∧ s.mChunkInManagerCount = _ ∧ s.crashed = _ ∧ s.held = _ := by
    simpa only [Prod.mk.injEq] using values
  obtain ⟨tr, labels, run⟩ := start.exec reached fun _ _ _ => trivial
  obtain ⟨crashed, -⟩ | ⟨lists, chunks, length, lists_of, count, chunks_of, apart, -⟩ := pools_in_order run
  · cases alive.symm.trans crashed
  · rw [threads] at length
    obtain ⟨first, own, rfl⟩ := List.length_eq_two.mp length
    obtain ⟨chunk, rfl⟩ := List.length_eq_one_iff.mp (count.trans inManager)
    obtain ⟨path, size, half⟩ := lists_of 0 _ first (by rw [threads]; rfl) rfl rfl
    obtain ⟨path', size', -⟩ := lists_of 1 _ own (by rw [threads]; rfl) rfl rfl
    obtain ⟨stored, whole⟩ := chunks_of 0 chunk rfl
    -- 501 nodes, with the 501st from the end on top
    obtain ⟨above, halfTop, below, split, is, room⟩ := half (by decide)
    obtain rfl : 499 = halfTop := Option.some.inj is
    have shape : 501 = (above ++ 499 :: below).length := split ▸ size
    have none : above = [] := by
      rw [List.length_append, List.length_cons, room] at shape
      exact List.eq_nil_of_length_eq_zero (by unfold objectCountPerChunk at shape; omega)
    rw [none, List.nil_append] at split
    subst split
    refine ⟨tr, s, run, labels, threads, inManager, below, own, chunk, path, path', stored, room, size'.symm, whole, ?_⟩
    simpa [held] using apart

end WanNet.TlsObjectPool
