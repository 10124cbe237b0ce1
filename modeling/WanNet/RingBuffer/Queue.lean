import WanNet.Lib.Machine
import WanNet.RingBuffer.Fifo

/-!
`RingBuffer` under `Enqueue`, `Dequeue`, `Peek`, `MoveFront` and `ClearBuffer`: a byte queue bounded
by the capacity less one.
-/

namespace WanNet.RingBuffer

variable {α : Type}

/-! ### Enqueue -/

/-- An `Enqueue` that the cells behind `mRear` can take stores its bytes as a receive does. -/
theorem enqueue_direct (rb : RingBuffer α) {data : List α} (fits : (data.length : Int) ≤ rb.getFreeSize)
    (direct : (data.length : Int) ≤ rb.getDirectEnqueueSize) : rb.enqueue data = some (rb.receive data) := by
  unfold enqueue
  rw [if_neg (by omega)]
  dsimp only
  rw [if_pos (by omega), receive_eq rb direct]

theorem enqueue_split (rb : RingBuffer α) {data : List α} (fits : (data.length : Int) ≤ rb.getFreeSize)
    (wraps : rb.getDirectEnqueueSize < data.length) :
    rb.enqueue data = some ((rb.receive (data.take rb.getDirectEnqueueSize.toNat)).receive
        (data.drop rb.getDirectEnqueueSize.toNat)) ∧
      (rb.receive (data.take rb.getDirectEnqueueSize.toNat)).mRear = 0 ∧
      (data.length : Int) - rb.getDirectEnqueueSize < rb.mFront := by
  have front := rb.front_range
  have rear := rb.rear_range
  have use := rb.getUseSize_eq
  have direct := rb.getDirectEnqueueSize_eq
  have positive := rb.getDirectEnqueueSize_pos
  obtain ⟨d, hd⟩ := Int.eq_ofNat_of_zero_le (Int.le_of_lt positive)
  have first : (data.take d).length = d := by rw [List.length_take]; omega
  have second : (data.drop d).length = data.length - d := List.length_drop
  have end_cell : rb.mRear + d = rb.mCapacity ∧ (data.length : Int) - d < rb.mFront := by
    unfold getFreeSize at fits
    split at use <;> split at direct <;> omega
  rw [hd, Int.toNat_natCast]
  have rearward : (rb.receive (data.take d)).mRear = 0 := by
    rw [receive_mRear rb (by omega), first, if_neg (by omega)]
    omega
  have room : ((data.drop d).length : Int) ≤ (rb.receive (data.take d)).getDirectEnqueueSize := by
    have after := (rb.receive (data.take d)).getDirectEnqueueSize_eq
    have same : (rb.receive (data.take d)).mFront = rb.mFront := by rw [receive_eq rb (by omega)]; rfl
    rw [rearward, same] at after
    split at after <;> omega
  have target : (rb.mRear + data.length).tmod rb.mCapacity = (data.drop d).length := by
    rw [tmod_wrap (by omega) (by omega), if_neg (by omega)]
    omega
  have landing : (0 + ((data.drop d).length : Int)).tmod rb.mCapacity = (data.drop d).length := by
    rw [tmod_wrap (by omega) (by omega), if_pos (by omega)]
    omega
  refine ⟨?_, rearward, end_cell.2⟩
  unfold enqueue
  rw [if_neg (by omega), hd]
  dsimp only
  rw [if_neg (by omega), Int.toNat_natCast, receive_eq _ room, rearward]
  congr 1
  simp only [receive_eq rb (show ((data.take d).length : Int) ≤ _ by omega), advanceRear, store] at rearward ⊢
  simp only [rearward, target, landing]

theorem receive_nil (rb : RingBuffer α) : rb.receive [] = rb := by
  have rear := rb.rear_range
  have posted := rb.getDirectEnqueueSize_pos
  have stays : rb.mRear.tmod rb.mCapacity = rb.mRear := by rw [tmod_wrap rear.1 (by omega), if_pos rear.2]
  have cells : memcpy rb.mBuffer rb.mRear [] = rb.mBuffer := by
    funext i
    exact memcpy_other _ (by simp only [List.length_nil]; omega)
  rw [receive_eq rb (by simp only [List.length_nil]; omega)]
  simp only [advanceRear, store, cells, List.length_nil, Int.natCast_zero, Int.add_zero, stays]

/-- A receive as long as the free cells allow appends its bytes, if there are any or not. -/
theorem receive_appends (rb : RingBuffer α) (data : List α) (direct : (data.length : Int) ≤ rb.getDirectEnqueueSize)
    (fits : (data.length : Int) ≤ rb.getFreeSize) :
    (rb.receive data).contents = rb.contents ++ data ∧ (rb.receive data).mCapacity = rb.mCapacity := by
  refine ⟨?_, by rw [receive_eq rb direct]; rfl⟩
  cases data with
  | nil => rw [receive_nil, List.append_nil]
  | cons b data => exact rb.receive_contents (by simp) direct fits

theorem getFreeSize_eq (rb : RingBuffer α) : rb.getFreeSize = rb.mCapacity - 1 - rb.contents.length := by
  rw [contents_length]
  unfold getFreeSize
  omega

/-- An `Enqueue` that there is room for appends its bytes, in one piece or in two. -/
theorem enqueue_contents (rb : RingBuffer α) (data : List α) (fits : (data.length : Int) ≤ rb.getFreeSize) :
    ∃ filled, rb.enqueue data = some filled ∧ filled.contents = rb.contents ++ data ∧
      filled.mCapacity = rb.mCapacity := by
  have front := rb.front_range
  have positive := rb.getDirectEnqueueSize_pos
  by_cases direct : (data.length : Int) ≤ rb.getDirectEnqueueSize
  · exact ⟨_, rb.enqueue_direct fits direct, rb.receive_appends data direct fits⟩
  · obtain ⟨stored, rearward, short⟩ := rb.enqueue_split fits (by omega)
    have taken : ((data.take rb.getDirectEnqueueSize.toNat).length : Int) = rb.getDirectEnqueueSize := by
      rw [List.length_take]
      omega
    have left : ((data.drop rb.getDirectEnqueueSize.toNat).length : Int) = data.length - rb.getDirectEnqueueSize := by
      rw [List.length_drop]
      omega
    obtain ⟨first, same⟩ := rb.receive_appends (data.take rb.getDirectEnqueueSize.toNat) (by omega) (by omega)
    have front_stays : (rb.receive (data.take rb.getDirectEnqueueSize.toNat)).mFront = rb.mFront := by
      rw [receive_eq rb (by omega)]
      rfl
    have room : ((data.drop rb.getDirectEnqueueSize.toNat).length : Int) ≤
        (rb.receive (data.take rb.getDirectEnqueueSize.toNat)).getDirectEnqueueSize := by
      have after := (rb.receive (data.take rb.getDirectEnqueueSize.toNat)).getDirectEnqueueSize_eq
      rw [rearward, front_stays] at after
      split at after <;> omega
    have free : ((data.drop rb.getDirectEnqueueSize.toNat).length : Int) ≤
        (rb.receive (data.take rb.getDirectEnqueueSize.toNat)).getFreeSize := by
      have before := rb.getFreeSize_eq
      rw [getFreeSize_eq, first, same, List.length_append]
      omega
    obtain ⟨second, still⟩ := receive_appends _ _ room free
    refine ⟨_, stored, ?_, still.trans same⟩
    rw [second, first, List.append_assoc, List.take_append_drop]

theorem enqueue_none (rb : RingBuffer α) {data : List α} : rb.enqueue data = none ↔ rb.getFreeSize < data.length := by
  unfold enqueue
  split <;> simp <;> omega

/-! ### The queue and its replies -/

/-- The calls of one thread on the ring. The sizes are those of the `int` arguments, none negative. -/
inductive Call (α : Type) where
  | enqueue (data : List α)
  | dequeue (dataSize : Nat)
  | peek (dataSize : Nat)
  | moveFront (size : Nat)
  | clearBuffer

/-- What a call returns, and the bytes it copies out. -/
structure Reply (α : Type) where
  returned : Bool
  copied : List α := []

def call (rb : RingBuffer α) : Call α → RingBuffer α × Reply α
  | .enqueue data =>
    match rb.enqueue data with
    | some filled => (filled, ⟨true, []⟩)
    | none => (rb, ⟨false, []⟩)
  | .dequeue n =>
    match rb.dequeue n with
    | some (data, rest) => (rest, ⟨true, data⟩)
    | none => (rb, ⟨false, []⟩)
  | .peek n =>
    match rb.peek n with
    | some data => (rb, ⟨true, data⟩)
    | none => (rb, ⟨false, []⟩)
  | .moveFront n =>
    match rb.moveFront n with
    | some rest => (rest, ⟨true, []⟩)
    | none => (rb, ⟨false, []⟩)
  | .clearBuffer => (rb.clearBuffer, ⟨true, []⟩)

def queueCall (bound : Nat) (queue : List α) : Call α → List α × Reply α
  | .enqueue data => if data.length ≤ bound - queue.length then (queue ++ data, ⟨true, []⟩) else (queue, ⟨false, []⟩)
  | .dequeue n => if n ≤ queue.length then (queue.drop n, ⟨true, queue.take n⟩) else (queue, ⟨false, []⟩)
  | .peek n => (queue, if n ≤ queue.length then ⟨true, queue.take n⟩ else ⟨false, []⟩)
  | .moveFront n => if n ≤ queue.length then (queue.drop n, ⟨true, []⟩) else (queue, ⟨false, []⟩)
  | .clearBuffer => ([], ⟨true, []⟩)

/-- The ring holds what the queue holds, and has the room the queue has. -/
def Holds (bound : Nat) (rb : RingBuffer α) (queue : List α) : Prop :=
  rb.contents = queue ∧ rb.mCapacity = bound + 1

theorem moveFront_eq (rb : RingBuffer α) (n : Nat) : rb.moveFront n = (rb.dequeue n).map Prod.snd := by
  unfold moveFront dequeue
  split <;> rfl

theorem peek_eq (rb : RingBuffer α) (n : Nat) : rb.peek n = (rb.dequeue n).map Prod.fst := by
  unfold peek dequeue
  split <;> rfl

theorem dequeue_eq (rb : RingBuffer α) (n : Nat) :
    (rb.contents.length < n ∧ rb.dequeue n = none) ∨
      (n ≤ rb.contents.length ∧ rb.dequeue n = some (rb.contents.take n, rb.advanceFront n) ∧
        (rb.advanceFront n).contents = rb.contents.drop n) := by
  have length := rb.contents_length
  by_cases short : rb.contents.length < n
  · exact .inl ⟨short, if_pos (by omega)⟩
  · refine .inr ⟨by omega, ?_, rb.advanceFront_contents (by omega)⟩
    unfold dequeue
    rw [if_neg (by omega), rb.copyOut_eq (by omega)]

/-- Every call answers as the queue does, and leaves the ring holding what the queue holds. -/
theorem call_holds {bound : Nat} (rb : RingBuffer α) (queue : List α) (c : Call α) (holds : Holds bound rb queue) :
    Holds bound (rb.call c).1 (queueCall bound queue c).1 ∧ (rb.call c).2 = (queueCall bound queue c).2 := by
  obtain ⟨rfl, capacity⟩ := holds
  have free := rb.getFreeSize_eq
  cases c with
  | enqueue data =>
    simp only [call, queueCall]
    by_cases fits : (data.length : Int) ≤ rb.getFreeSize
    · obtain ⟨filled, stored, contents, same⟩ := rb.enqueue_contents _ fits
      rw [stored, if_pos (by omega)]
      exact ⟨⟨contents, same.trans capacity⟩, rfl⟩
    · have refused : rb.enqueue data = none := enqueue_none rb |>.mpr (by omega)
      have positive := rb.getFreeSize_nonneg
      rw [refused, if_neg (by omega)]
      exact ⟨⟨rfl, capacity⟩, rfl⟩
  | dequeue n =>
    simp only [call, queueCall]
    rcases rb.dequeue_eq n with ⟨short, refused⟩ | ⟨enough, taken, left⟩
    · rw [refused, if_neg (by omega)]
      exact ⟨⟨rfl, capacity⟩, rfl⟩
    · rw [taken, if_pos enough]
      exact ⟨⟨left, capacity⟩, rfl⟩
  | peek n =>
    simp only [call, queueCall, peek_eq]
    rcases rb.dequeue_eq n with ⟨short, refused⟩ | ⟨enough, taken, -⟩
    · rw [refused, if_neg (by omega)]
      exact ⟨⟨rfl, capacity⟩, rfl⟩
    · rw [taken, if_pos enough]
      exact ⟨⟨rfl, capacity⟩, rfl⟩
  | moveFront n =>
    simp only [call, queueCall, moveFront_eq]
    rcases rb.dequeue_eq n with ⟨short, refused⟩ | ⟨enough, taken, left⟩
    · rw [refused, if_neg (by omega)]
      exact ⟨⟨rfl, capacity⟩, rfl⟩
    · rw [taken, if_pos enough]
      exact ⟨⟨left, capacity⟩, rfl⟩
  | clearBuffer => exact ⟨⟨rb.clearBuffer_contents, capacity⟩, rfl⟩

theorem call_refused (rb : RingBuffer α) (c : Call α) (refused : (rb.call c).2.returned = false) : (rb.call c).1 = rb := by
  cases c with
  | clearBuffer => cases refused
  | peek n =>
    simp only [call] at refused ⊢
    split <;> rfl
  | enqueue _ | dequeue _ | moveFront _ =>
    simp only [call] at refused ⊢
    split at refused
    · cases refused
    · rfl

/-- From its constructor on, a ring of `C` cells is a queue of at most `C - 1` bytes: after every
sequence of calls it has answered as the queue has, and holds what the queue holds. -/
theorem calls_of_queue (mem : Int → α) {C : Int} (range : 1 ≤ C ∧ C ≤ 2 ^ 30) (calls : List (Call α)) :
    let ring := Machine.run call (new mem C range) calls
    let queue := Machine.run (queueCall (C - 1).toNat) [] calls
    ring.2 = queue.2 ∧ ring.1.contents = queue.1 ∧ ring.1.mCapacity = C ∧
      (0 ≤ ring.1.mFront ∧ ring.1.mFront < C) ∧ (0 ≤ ring.1.mRear ∧ ring.1.mRear < C) ∧
      ring.1.getUseSize = queue.1.length ∧ ring.1.getFreeSize = C - 1 - queue.1.length ∧
      ∀ c, (ring.1.call c).2.returned = false → (ring.1.call c).1 = ring.1 := by
  intro ring queue
  have start : Holds (C - 1).toNat (new mem C range) [] := ⟨new_contents mem C range, by simp only [new]; omega⟩
  obtain ⟨⟨contents, capacity⟩, replies⟩ := Machine.run_simulates (fun rb q c => call_holds rb q c) start calls
  have capacity : ring.1.mCapacity = C := by
    have same : ring.1.mCapacity = ((C - 1).toNat : Int) + 1 := capacity
    omega
  have contents : ring.1.contents = queue.1 := contents
  refine ⟨replies, contents, capacity, capacity ▸ ring.1.front_range, capacity ▸ ring.1.rear_range, ?_, ?_,
    fun c refused => ring.1.call_refused c refused⟩
  · rw [← contents_length, contents]
  · rw [getFreeSize_eq, capacity, contents]

/-- Three bytes through a ring of four cells, the last of them around the end, and one too many. -/
theorem calls_of_small_queue :
    (Machine.run call (new (fun _ => (0 : UInt8)) 4 (by decide))
        [.enqueue [1, 2], .dequeue 2, .enqueue [3, 4, 5], .enqueue [6], .dequeue 3]).2 =
      [⟨true, []⟩, ⟨true, [1, 2]⟩, ⟨true, []⟩, ⟨false, []⟩, ⟨true, [3, 4, 5]⟩] :=
  (calls_of_queue (fun _ => (0 : UInt8)) (by decide : (1 : Int) ≤ 4 ∧ (4 : Int) ≤ 2 ^ 30) _).1

/-! ### Cells seen through a function -/

variable {β : Type}

/-- The ring whose cells are the images of these. -/
def map (f : α → β) (rb : RingBuffer α) : RingBuffer β where
  mBuffer i := f (rb.mBuffer i)
  mCapacity := rb.mCapacity
  mFront := rb.mFront
  mRear := rb.mRear
  capacity_range := rb.capacity_range
  front_range := rb.front_range
  rear_range := rb.rear_range

theorem memcpy_map (f : α → β) (mem : Int → α) (dst : Int) (data : List α) :
    memcpy (fun i => f (mem i)) dst (data.map f) = fun i => f (memcpy mem dst data i) := by
  funext i
  unfold memcpy
  split
  · rw [List.getElem?_map]
    cases data[(i - dst).toNat]? <;> rfl
  · rfl

theorem cells_map (f : α → β) (mem : Int → α) (src : Int) (n : Nat) :
    cells (fun i => f (mem i)) src n = (cells mem src n).map f := by
  unfold cells
  rw [List.map_map]
  rfl

@[simp] theorem getUseSize_map (f : α → β) (rb : RingBuffer α) : (rb.map f).getUseSize = rb.getUseSize := rfl

@[simp] theorem getFreeSize_map (f : α → β) (rb : RingBuffer α) : (rb.map f).getFreeSize = rb.getFreeSize := rfl

theorem store_map (f : α → β) (rb : RingBuffer α) (dst : Int) (data : List α) :
    (rb.map f).store dst (data.map f) = (rb.store dst data).map f := by
  unfold store map
  simp only [memcpy_map]

theorem copyOut_map (f : α → β) (rb : RingBuffer α) (n : Nat) : (rb.map f).copyOut n = (rb.copyOut n).map f := by
  unfold copyOut
  rw [apply_ite (List.map f), List.map_append, ← cells_map, ← cells_map, ← cells_map]
  rfl

theorem peek_map (f : α → β) (rb : RingBuffer α) (n : Nat) : (rb.map f).peek n = (rb.peek n).map (List.map f) := by
  unfold peek
  rw [copyOut_map, getUseSize_map]
  split <;> rfl

theorem dequeue_map (f : α → β) (rb : RingBuffer α) (n : Nat) :
    (rb.map f).dequeue n = (rb.dequeue n).map fun taken => (taken.1.map f, taken.2.map f) := by
  unfold dequeue
  rw [copyOut_map, getUseSize_map]
  split <;> rfl

theorem enqueue_map (f : α → β) (rb : RingBuffer α) (data : List α) :
    (rb.map f).enqueue (data.map f) = (rb.enqueue data).map (map f) := by
  have direct : (rb.map f).getDirectEnqueueSize = rb.getDirectEnqueueSize := rfl
  have rear : (rb.map f).mRear = rb.mRear := rfl
  unfold enqueue
  dsimp only
  rw [List.length_map, direct, rear, ← List.map_take, ← List.map_drop, store_map, store_map, store_map, getFreeSize_map]
  split
  · rfl
  · split <;> rfl

end WanNet.RingBuffer
