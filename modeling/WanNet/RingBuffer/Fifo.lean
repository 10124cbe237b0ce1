import Mathlib.Tactic.Linarith
import WanNet.Lib.Transition
import WanNet.RingBuffer.Model

/-!
`RingBuffer` as a byte queue: what a dequeue removes, what a direct receive appends, and over which
runs the receive path keeps every byte.
-/

namespace WanNet.RingBuffer
open Transition

variable {α : Type}

theorem getUseSize_eq (rb : RingBuffer α) :
    rb.getUseSize = if rb.mFront ≤ rb.mRear then rb.mRear - rb.mFront else rb.mRear - rb.mFront + rb.mCapacity := by
  have front := rb.front_range
  have rear := rb.rear_range
  unfold getUseSize
  rw [tmod_wrap (by omega) (by omega)]
  split <;> split <;> omega

theorem getUseSize_range (rb : RingBuffer α) : 0 ≤ rb.getUseSize ∧ rb.getUseSize < rb.mCapacity :=
  tmod_range (by have := rb.front_range; have := rb.rear_range; omega) rb.capacity_range.1

theorem getFreeSize_nonneg (rb : RingBuffer α) : 0 ≤ rb.getFreeSize := by
  have := rb.getUseSize_range
  unfold getFreeSize
  omega

@[simp] theorem contents_length (rb : RingBuffer α) : (rb.contents.length : Int) = rb.getUseSize := by
  simp [contents, rb.getUseSize_range.1]

def cellAt (rb : RingBuffer α) (k : Nat) : α := rb.mBuffer ((rb.mFront + k).tmod rb.mCapacity)

theorem contents_eq (rb : RingBuffer α) :
    rb.contents = (List.range rb.getUseSize.toNat).map rb.cellAt := rfl

theorem cellAt_index (rb : RingBuffer α) {k : Nat} (hk : (k : Int) < rb.mCapacity) :
    (rb.mFront + k).tmod rb.mCapacity =
      if rb.mFront + k < rb.mCapacity then rb.mFront + k else rb.mFront + k - rb.mCapacity := by
  have front := rb.front_range
  exact tmod_wrap (by omega) (by omega)

/-! ### Dequeue and peek -/

/-- One run of cells or two, the copy is the first `n` bytes of the contents. -/
theorem copyOut_eq (rb : RingBuffer α) {n : Nat} (hn : (n : Int) ≤ rb.getUseSize) :
    rb.copyOut n = rb.contents.take n := by
  have front := rb.front_range
  have use := rb.getUseSize_range
  have whole : rb.contents.take n = (List.range n).map rb.cellAt := by
    rw [contents_eq, ← List.map_take, List.take_range, Nat.min_eq_left (by omega)]
  rw [whole]
  unfold copyOut
  dsimp only
  split
  · rename_i direct
    have near : rb.mFront + n ≤ rb.mCapacity := by
      unfold getDirectDequeueSize at direct
      split at direct <;> omega
    apply List.map_congr_left
    intro k hk
    have hk := List.mem_range.mp hk
    rw [cellAt, cellAt_index rb (by omega), if_pos (by omega)]
  · rename_i direct
    have split_at : rb.getDirectDequeueSize = rb.mCapacity - rb.mFront := by
      unfold getDirectDequeueSize at direct ⊢
      split at direct
      · rw [if_pos ‹_›]
      · omega
    rw [split_at] at direct ⊢
    obtain ⟨d, hd⟩ := Int.eq_ofNat_of_zero_le (show 0 ≤ rb.mCapacity - rb.mFront by omega)
    rw [hd, Int.toNat_natCast]
    have parts : List.range n = List.range d ++ (List.range (n - d)).map (d + ·) := by
      rw [← List.range_add, Nat.add_sub_cancel' (by omega)]
    rw [parts, List.map_append, List.map_map]
    congr 1
    · apply List.map_congr_left
      intro k hk
      have hk := List.mem_range.mp hk
      rw [cellAt, cellAt_index rb (by omega), if_pos (by omega)]
    · apply List.map_congr_left
      intro k hk
      have hk := List.mem_range.mp hk
      have beyond : ((d + k : Nat) : Int) = rb.mCapacity - rb.mFront + k := by omega
      simp only [Function.comp, cellAt]
      rw [cellAt_index rb (by omega), beyond, if_neg (by omega)]
      congr 1
      omega

theorem advanceFront_contents (rb : RingBuffer α) {n : Nat} (hn : (n : Int) ≤ rb.getUseSize) :
    (rb.advanceFront n).contents = rb.contents.drop n := by
  have front := rb.front_range
  have rear := rb.rear_range
  have use := rb.getUseSize_range
  have moved : (rb.advanceFront n).mFront =
      if rb.mFront + n < rb.mCapacity then rb.mFront + n else rb.mFront + n - rb.mCapacity :=
    rb.cellAt_index (by omega)
  have size : (rb.advanceFront n).getUseSize = rb.getUseSize - n := by
    have before := rb.getUseSize_eq
    have after := (rb.advanceFront n).getUseSize_eq
    rw [moved] at after
    simp only [advanceFront] at after ⊢
    rw [after]
    split at before <;> split <;> split <;> omega
  have cell : ∀ k : Nat, (k : Int) < rb.getUseSize - n → (rb.advanceFront n).cellAt k = rb.cellAt (n + k) := by
    intro k hk
    have here := (rb.advanceFront n).cellAt_index (k := k) (by simp only [advanceFront]; omega)
    have there := rb.cellAt_index (k := n + k) (by omega)
    unfold cellAt
    rw [here, there, moved]
    simp only [advanceFront]
    congr 1
    split <;> split <;> split <;> omega
  obtain ⟨u, hu⟩ := Int.eq_ofNat_of_zero_le use.1
  rw [contents_eq, contents_eq, size, hu]
  have count : ((u : Int) - n).toNat = u - n := by omega
  have parts : List.range u = List.range n ++ (List.range (u - n)).map (n + ·) := by
    rw [← List.range_add, Nat.add_sub_cancel' (by omega)]
  rw [Int.toNat_natCast, count, parts, List.map_append, List.map_map,
    List.drop_left' (by simp)]
  apply List.map_congr_left
  intro k hk
  have hk := List.mem_range.mp hk
  exact cell k (by omega)

theorem dequeue_contents {rb rest : RingBuffer α} {data : List α} {n : Nat}
    (h : rb.dequeue n = some (data, rest)) :
    data = rb.contents.take n ∧ rest.contents = rb.contents.drop n := by
  unfold dequeue at h
  split at h
  · cases h
  · obtain ⟨rfl, rfl⟩ := Prod.mk.inj (Option.some.inj h)
    exact ⟨rb.copyOut_eq (by omega), rb.advanceFront_contents (by omega)⟩

theorem dequeue_isSome (rb : RingBuffer α) {n : Nat} :
    (rb.dequeue n).isSome ↔ n ≤ rb.contents.length := by
  have length := rb.contents_length
  unfold dequeue
  split <;> simp <;> omega

/-! ### Direct receive -/

@[simp] theorem clearBuffer_contents (rb : RingBuffer α) : rb.clearBuffer.contents = [] := by
  have capacity := rb.capacity_range
  have size := rb.clearBuffer.getUseSize_eq
  simp only [clearBuffer, new, Int.le_refl, if_true, Int.sub_self] at size
  simp [contents, clearBuffer, new, size]

@[simp] theorem new_contents (mem : Int → α) (c : Int) (h : 1 ≤ c ∧ c ≤ 2 ^ 30) : (new mem c h).contents = [] := by
  have size := (new mem c h).getUseSize_eq
  simp only [new, Int.le_refl, if_true, Int.sub_self] at size
  simp [contents, new, size]

theorem getDirectEnqueueSize_eq (rb : RingBuffer α) :
    rb.getDirectEnqueueSize =
      if rb.mFront ≤ rb.mRear then rb.mCapacity - rb.mRear else rb.mFront - rb.mRear := by
  have front := rb.front_range
  have rear := rb.rear_range
  have use := rb.getUseSize_eq
  unfold getDirectEnqueueSize
  split at use <;> split <;> omega

theorem getDirectEnqueueSize_pos (rb : RingBuffer α) : 0 < rb.getDirectEnqueueSize := by
  have rear := rb.rear_range
  have direct := rb.getDirectEnqueueSize_eq
  split at direct <;> omega

/-- The posted length never passes the physical end of the ring. -/
theorem getDirectEnqueueSize_le (rb : RingBuffer α) : rb.mRear + rb.getDirectEnqueueSize ≤ rb.mCapacity := by
  have front := rb.front_range
  have direct := rb.getDirectEnqueueSize_eq
  split at direct <;> omega

theorem receive_eq (rb : RingBuffer α) {data : List α} (hd : (data.length : Int) ≤ rb.getDirectEnqueueSize) :
    rb.receive data = (rb.store rb.mRear data).advanceRear data.length := by
  have front := rb.front_range
  have use := rb.getUseSize_eq
  have direct := rb.getDirectEnqueueSize_eq
  have enough : ¬ rb.mCapacity - rb.getUseSize < data.length := by
    split at use <;> split at direct <;> omega
  have moved : (rb.store rb.mRear data).moveRear data.length =
      some ((rb.store rb.mRear data).advanceRear data.length) := if_neg enough
  simp only [receive, moved, Option.getD_some]

theorem receive_mRear (rb : RingBuffer α) {data : List α}
    (hd : (data.length : Int) ≤ rb.getDirectEnqueueSize) :
    (rb.receive data).mRear =
      if rb.mRear + data.length < rb.mCapacity then rb.mRear + data.length
      else rb.mRear + data.length - rb.mCapacity := by
  have rear := rb.rear_range
  have fits := rb.getDirectEnqueueSize_le
  rw [receive_eq rb hd]
  exact tmod_wrap (by simp only [store]; omega) (by simp only [store]; omega)

/-- `GetUseSize()` after a receive: a receive that fills the last cell makes the ring look empty. -/
theorem receive_getUseSize (rb : RingBuffer α) {data : List α} (hn : 1 ≤ data.length)
    (hd : (data.length : Int) ≤ rb.getDirectEnqueueSize) :
    (rb.receive data).getUseSize =
      if (data.length : Int) ≤ rb.getFreeSize then rb.getUseSize + data.length else 0 := by
  have front := rb.front_range
  have rear := rb.rear_range
  have before := rb.getUseSize_eq
  have direct := rb.getDirectEnqueueSize_eq
  have after := (rb.receive data).getUseSize_eq
  have moved := rb.receive_mRear hd
  have same : (rb.receive data).mFront = rb.mFront ∧ (rb.receive data).mCapacity = rb.mCapacity := by
    rw [receive_eq rb hd]
    exact ⟨rfl, rfl⟩
  rw [same.1, same.2] at after
  unfold getFreeSize
  split at before <;> split at direct <;> split at moved <;> split at after <;> split <;> omega

theorem receive_contents (rb : RingBuffer α) {data : List α} (hn : 1 ≤ data.length)
    (hd : (data.length : Int) ≤ rb.getDirectEnqueueSize) (fits : (data.length : Int) ≤ rb.getFreeSize) :
    (rb.receive data).contents = rb.contents ++ data := by
  have front := rb.front_range
  have rear := rb.rear_range
  have range := rb.getUseSize_range
  have use := rb.getUseSize_eq
  have direct := rb.getDirectEnqueueSize_eq
  have size := rb.receive_getUseSize hn hd
  rw [if_pos fits] at size
  unfold getFreeSize at fits
  obtain ⟨u, hu⟩ := Int.eq_ofNat_of_zero_le range.1
  have index : ∀ k : Nat, (k : Int) < rb.mCapacity → (rb.receive data).cellAt k =
      memcpy rb.mBuffer rb.mRear data
        (if rb.mFront + k < rb.mCapacity then rb.mFront + k else rb.mFront + k - rb.mCapacity) := by
    intro k hk
    rw [← rb.cellAt_index hk, receive_eq rb hd]
    rfl
  have old : ∀ k ∈ List.range u, (rb.receive data).cellAt k = rb.cellAt k := by
    intro k hk
    have hk := List.mem_range.mp hk
    rw [index k (by omega), cellAt, cellAt_index rb (by omega)]
    -- an old byte lies before `mRear`, or at `mFront` or later, past the posted cells
    apply memcpy_other
    split at use <;> split at direct <;> split <;> omega
  have fresh : ∀ k (hk : k < data.length), (rb.receive data).cellAt (u + k) = data[k] := by
    intro k hk
    have here : (if rb.mFront + (u + k : Nat) < rb.mCapacity then rb.mFront + (u + k : Nat)
        else rb.mFront + (u + k : Nat) - rb.mCapacity) = rb.mRear + k := by
      split at use <;> split at direct <;> split <;> omega
    rw [index (u + k) (by omega), here, memcpy_at _ _ hk]
  rw [contents_eq, contents_eq, size, hu]
  have count : ((u : Int) + data.length).toNat = u + data.length := by omega
  rw [count, Int.toNat_natCast, List.range_add, List.map_append, List.map_map]
  congr 1
  · exact List.map_congr_left old
  · apply List.ext_getElem
    · simp
    · intro k h1 h2
      simpa using fresh k h2

/-! ### A receive in two halves -/

/-- The system writes to the posted cells, outside the contents. -/
theorem store_contents (rb : RingBuffer α) {data : List α} (hd : (data.length : Int) ≤ rb.getDirectEnqueueSize) :
    (rb.store rb.mRear data).contents = rb.contents := by
  have front := rb.front_range
  have rear := rb.rear_range
  have range := rb.getUseSize_range
  have use := rb.getUseSize_eq
  have direct := rb.getDirectEnqueueSize_eq
  refine List.map_congr_left fun k hk => ?_
  have hk : k < rb.getUseSize.toNat := List.mem_range.mp hk
  show memcpy rb.mBuffer rb.mRear data ((rb.mFront + k).tmod rb.mCapacity) = rb.mBuffer _
  rw [cellAt_index rb (by omega)]
  apply memcpy_other
  split at use <;> split at direct <;> split <;> omega

theorem cells_store (rb : RingBuffer α) (dst : Int) (data : List α) :
    cells (rb.store dst data).mBuffer dst data.length = data := by
  apply List.ext_getElem
  · simp [cells]
  · intro k h1 h2
    simpa [cells, store] using memcpy_at rb.mBuffer dst h2

theorem store_cells (rb : RingBuffer α) (dst : Int) (n : Nat) : rb.store dst (cells rb.mBuffer dst n) = rb := by
  have same : memcpy rb.mBuffer dst (cells rb.mBuffer dst n) = rb.mBuffer := by
    funext i
    by_cases inside : dst ≤ i ∧ i < dst + n
    · have at_k := @memcpy_at _ rb.mBuffer dst (cells rb.mBuffer dst n) (i - dst).toNat
        (by simp [cells]; omega)
      have here : dst + ((i - dst).toNat : Int) = i := by omega
      rw [here] at at_k
      rw [at_k]
      simp only [cells, List.getElem_map, List.getElem_range, here]
    · exact memcpy_other _ (by simp [cells]; omega)
  simp only [store, same]

/-- `MoveRear` takes the cells behind `mRear` into the contents, or, filling the ring, drops them all. -/
theorem moveRear_contents (rb : RingBuffer α) {n : Nat} (hn : (n : Int) ≤ rb.getDirectEnqueueSize) :
    ((rb.moveRear n).getD rb).contents = rb.contents ++ cells rb.mBuffer rb.mRear n ∨
      ((rb.moveRear n).getD rb).contents = [] := by
  have length : (cells rb.mBuffer rb.mRear n).length = n := by simp [cells]
  have received : (rb.moveRear n).getD rb = rb.receive (cells rb.mBuffer rb.mRear n) := by
    simp only [receive, store_cells, length]
  rw [received]
  rcases Nat.eq_zero_or_pos n with rfl | some_bytes
  · have rear := rb.rear_range
    have stays := tmod_wrap (c := rb.mCapacity) rear.1 (by omega)
    have still : rb.advanceRear 0 = rb := by simp [advanceRear, stays, rear.2]
    rw [receive_eq rb (by simpa [cells] using hn), length, store_cells, still]
    exact .inl (by simp [cells])
  · have some_bytes : 1 ≤ (cells rb.mBuffer rb.mRear n).length := by omega
    have posted : ((cells rb.mBuffer rb.mRear n).length : Int) ≤ rb.getDirectEnqueueSize := by omega
    have size := rb.receive_getUseSize some_bytes posted
    split at size
    next fits => exact .inl (rb.receive_contents some_bytes posted fits)
    next => exact .inr (by simp [contents, size])

/-! ### Runs of the receive path -/

/-- What `Session` and `NetClient` do to their `RecvBuffer`. -/
inductive Op (α : Type) where
  | clearBuffer
  | peek (dataSize : Nat)
  | dequeue (dataSize : Nat)
  | receive (data : List α)

/-- A refused peek or dequeue returns `false` and changes nothing; a receive completes with at
least one byte and no more than was posted. -/
def step (rb : RingBuffer α) : Op α → Option (RingBuffer α)
  | .clearBuffer => some rb.clearBuffer
  | .peek _ => some rb
  | .dequeue n => some (match rb.dequeue n with
    | some (_, rest) => rest
    | none => rb)
  | .receive data =>
    if 1 ≤ data.length ∧ (data.length : Int) ≤ rb.getDirectEnqueueSize then some (rb.receive data) else none

/-- The receive path of one ring, from its constructor on. -/
def receivePath (α : Type) : System (RingBuffer α) (Op α) where
  init rb := ∃ mem c h, rb = new mem c h
  step := step

/-- The bytes a run should still hold: a queue fed by the receives and drained by the dequeues. -/
def expected : List (Op α) → List α
  | [] => []
  | op :: older =>
    match op with
    | .clearBuffer => []
    | .peek _ => expected older
    | .dequeue n => if n ≤ (expected older).length then (expected older).drop n else expected older
    | .receive data => expected older ++ data

def LeavesFreeCell (rb : RingBuffer α) : Op α → Prop
  | .receive data => (data.length : Int) ≤ rb.getFreeSize
  | _ => True

/-- Along a run whose receives all leave a cell free, the ring is the byte queue it stands for. -/
theorem run_contents {tr : List (RingBuffer α × Op α)} {rb : RingBuffer α}
    (h : Run (receivePath α) LeavesFreeCell tr rb) : rb.contents = expected (tr.map Prod.snd).reverse := by
  refine h.invariant (I := fun tr rb => rb.contents = expected (tr.map Prod.snd).reverse) ?_ ?_
  · rintro _ ⟨mem, c, range, rfl⟩
    exact new_contents mem c range
  · intro tr rb op next _ ih fits taken
    rw [List.map_append, List.reverse_append]
    cases op with
    | clearBuffer =>
      obtain rfl := Option.some.inj taken
      exact rb.clearBuffer_contents
    | peek n =>
      obtain rfl := Option.some.inj taken
      exact ih
    | dequeue n =>
      obtain rfl := Option.some.inj taken
      change _ = if n ≤ (expected (tr.map Prod.snd).reverse).length
        then (expected (tr.map Prod.snd).reverse).drop n else expected (tr.map Prod.snd).reverse
      rw [← ih]
      have enough := rb.dequeue_isSome (n := n)
      cases removed : rb.dequeue n with
      | none => rw [removed] at enough; rw [if_neg (by simpa using enough)]
      | some result =>
        obtain ⟨data, rest⟩ := result
        rw [removed] at enough
        rw [if_pos (by simpa using enough)]
        exact (dequeue_contents removed).2
    | receive data =>
      change (if _ then _ else _) = _ at taken
      split at taken
      · rename_i posted
        obtain rfl := Option.some.inj taken
        rw [receive_contents rb posted.1 posted.2 fits, ih]
        rfl
      · cases taken

/-- From any state of the receive path, a posted receive appends its bytes to the contents exactly
when it leaves a cell free. -/
theorem receive_appends_iff {tr : List (RingBuffer α × Op α)} {rb : RingBuffer α} {data : List α}
    (_reached : Run (receivePath α) Free tr rb) (some_bytes : 1 ≤ data.length)
    (posted : (data.length : Int) ≤ rb.getDirectEnqueueSize) :
    ((rb.receive data).contents = rb.contents ++ data ∧
      (rb.receive data).getUseSize = rb.getUseSize + data.length) ↔
      (data.length : Int) ≤ rb.getFreeSize := by
  have size := rb.receive_getUseSize some_bytes posted
  constructor
  · rintro ⟨-, grown⟩
    by_contra full
    have use := rb.getUseSize_range
    rw [if_neg full] at size
    omega
  · intro fits
    rw [if_pos fits] at size
    exact ⟨rb.receive_contents some_bytes posted fits, size⟩

/-- A ring of eight cells: the second receive ends at the last cell, the third starts at the first. -/
def wraps : List (Op UInt8) := [.receive [1, 2, 3, 4, 5, 6], .dequeue 4, .receive [7, 8], .receive [9]]

theorem receive_appends_behind_front : ∃ tr rb, Run (receivePath UInt8) Free tr rb ∧ tr.map Prod.snd = wraps ∧
    (rb.mFront = 4 ∧ rb.mRear = 1 ∧ rb.contents = [5, 6, 7, 8, 9]) ∧
    (((rb.receive [10, 11]).contents = rb.contents ++ [10, 11] ∧
      (rb.receive [10, 11]).getUseSize = rb.getUseSize + ([10, 11] : List UInt8).length) ↔
      (([10, 11] : List UInt8).length : Int) ≤ rb.getFreeSize) ∧
    (rb.receive [10, 11]).contents = [5, 6, 7, 8, 9, 10, 11] := by
  have start : Run (receivePath UInt8) Free [] (new (fun _ => 0) 8 (by decide)) := .init ⟨_, _, _, rfl⟩
  have facts : (exec (receivePath UInt8) (new (fun _ => 0) 8 (by decide)) wraps).map
      (fun rb => ((rb.mFront, rb.mRear, rb.contents), rb.getDirectEnqueueSize, rb.getFreeSize)) =
      some ((4, 1, [5, 6, 7, 8, 9]), 3, 2) := by decide
  obtain ⟨rb, reached, values⟩ := Option.map_eq_some_iff.mp facts
  obtain ⟨⟨front, rear, contents⟩, direct, room⟩ : (rb.mFront = 4 ∧ rb.mRear = 1 ∧ rb.contents = [5, 6, 7, 8, 9]) ∧
    rb.getDirectEnqueueSize = 3 ∧ rb.getFreeSize = 2 := by simpa only [Prod.mk.injEq] using values
  obtain ⟨tr, labels, run⟩ := start.exec reached fun _ _ _ => trivial
  have appends := receive_appends_iff run (show 1 ≤ ([10, 11] : List UInt8).length by decide) (by rw [direct]; decide)
  exact ⟨tr, rb, run, labels, ⟨front, rear, contents⟩, appends, by rw [(appends.mpr (by rw [room]; decide)).1, contents]; rfl⟩

def recvBuffer : RingBuffer UInt8 := new (fun _ => 0) defaultSize defaultSize_range

theorem recvBuffer_reached : Run (receivePath UInt8) Free [] recvBuffer := .init ⟨_, _, _, rfl⟩

/-- `recvBuffer` posts all 8192 cells, and a receive that fills them leaves the ring empty. -/
theorem full_receive_drops_bytes :
    Run (receivePath UInt8) Free [] recvBuffer ∧
      ((List.replicate 8192 (0x77 : UInt8)).length : Int) ≤ recvBuffer.getDirectEnqueueSize ∧
      (recvBuffer.receive (List.replicate 8192 0x77)).contents = [] ∧
      ¬ ((recvBuffer.receive (List.replicate 8192 0x77)).contents =
          recvBuffer.contents ++ List.replicate 8192 0x77 ∧
        (recvBuffer.receive (List.replicate 8192 0x77)).getUseSize =
          recvBuffer.getUseSize + (List.replicate 8192 (0x77 : UInt8)).length) := by
  have posted : ((List.replicate 8192 (0x77 : UInt8)).length : Int) ≤ recvBuffer.getDirectEnqueueSize := by
    rw [List.length_replicate]
    decide
  have size := recvBuffer.receive_getUseSize (by rw [List.length_replicate]; decide) posted
  rw [List.length_replicate, if_neg (by decide)] at size
  have empty : (recvBuffer.receive (List.replicate 8192 0x77)).contents = [] := by
    apply List.eq_nil_of_length_eq_zero
    have length := (recvBuffer.receive (List.replicate 8192 0x77)).contents_length
    omega
  refine ⟨recvBuffer_reached, posted, empty, ?_⟩
  rintro ⟨-, grown⟩
  rw [size, List.length_replicate] at grown
  exact absurd grown (by decide)

end WanNet.RingBuffer
