import Mathlib.Data.Vector.Basic

/-!
A block of memory: runs of cells read and written at an offset, and sweeps that rewrite one cell
after another with a state of their own.
-/

namespace Block

variable {α σ τ : Type} {n : Nat} {m m' : List.Vector α n} {offset count base i : Nat} {data more : List α}

/-- The cells from `offset` on, unless they run past the end. -/
def read (m : List.Vector α n) (offset count : Nat) : Option (List α) :=
  if offset + count ≤ n then some ((m.toList.drop offset).take count) else none

def write (m : List.Vector α n) (offset : Nat) (data : List α) : Option (List.Vector α n) :=
  if inside : offset + data.length ≤ n then
    some ⟨m.toList.take offset ++ data ++ m.toList.drop (offset + data.length), by
      simp only [List.length_append, List.length_take, List.length_drop, List.Vector.toList_length]
      omega⟩
  else none

theorem read_inside (inside : offset + count ≤ n) : read m offset count = some ((m.toList.drop offset).take count) :=
  if_pos inside

theorem read_outside (outside : n < offset + count) : read m offset count = none := if_neg (Nat.not_le_of_lt outside)

theorem read_length (is : read m offset count = some data) : data.length = count := by
  unfold read at is
  split at is
  · cases is
    rw [List.length_take, List.length_drop, List.Vector.toList_length]
    omega
  · cases is

theorem write_inside (m : List.Vector α n) (offset : Nat) (data : List α) (inside : offset + data.length ≤ n) :
    ∃ m', write m offset data = some m' ∧
      m'.toList = m.toList.take offset ++ data ++ m.toList.drop (offset + data.length) := by
  refine ⟨_, dif_pos inside, rfl⟩

theorem write_toList (is : write m offset data = some m') :
    offset + data.length ≤ n ∧ m'.toList = m.toList.take offset ++ data ++ m.toList.drop (offset + data.length) := by
  unfold write at is
  split at is
  next inside =>
    cases is
    exact ⟨inside, rfl⟩
  · cases is

/-- What a write stored is what a read finds. -/
theorem read_write (is : write m offset data = some m') : read m' offset data.length = some data := by
  obtain ⟨inside, eq⟩ := write_toList is
  have before : (m.toList.take offset).length = offset := by
    rw [List.length_take, List.Vector.toList_length]
    omega
  rw [read_inside inside, eq, List.append_assoc, List.drop_left' before, List.take_left]

/-- Cells before the ones written stay. -/
theorem read_before (is : write m offset data = some m') {at_ : Nat} (before : at_ + count ≤ offset) :
    read m' at_ count = read m at_ count := by
  obtain ⟨inside, eq⟩ := write_toList is
  have length : (m.toList.take offset).length = offset := by
    rw [List.length_take, List.Vector.toList_length]
    omega
  rw [read_inside (by omega), read_inside (by omega), eq, List.append_assoc, List.drop_append_of_le_length (by omega),
    List.take_append_of_le_length (by rw [List.length_drop]; omega), List.drop_take, List.take_take,
    Nat.min_eq_left (by omega)]

/-- A run of cells is one run behind another. -/
theorem read_append (m : List.Vector α n) (offset first second : Nat) (inside : offset + (first + second) ≤ n) :
    ∃ a b, read m offset first = some a ∧ read m (offset + first) second = some b ∧
      read m offset (first + second) = some (a ++ b) := by
  refine ⟨_, _, read_inside (by omega), read_inside (by omega), ?_⟩
  rw [read_inside inside, List.take_add, List.drop_drop]

/-! ### Sweeps -/

/-- Turns each element into another, by its place and a state that the elements before it left. -/
structure Coder (σ α : Type) where
  out : Nat → σ → α → α
  next : Nat → σ → α → σ

def Coder.run (c : Coder σ α) : Nat → σ → List α → List α
  | _, _, [] => []
  | i, s, a :: later => c.out i s a :: c.run (i + 1) (c.next i s a) later

@[simp] theorem Coder.run_length (c : Coder σ α) (i : Nat) (s : σ) (data : List α) : (c.run i s data).length = data.length := by
  induction data generalizing i s with
  | nil => rfl
  | cons a later ih => rw [Coder.run, List.length_cons, List.length_cons, ih]

/-- One coder gives back what another was given, while their states correspond. -/
structure Coder.Undoes (d : Coder τ α) (c : Coder σ α) (Alike : σ → τ → Prop) : Prop where
  out : ∀ (i : Nat) (s : σ) (t : τ) (a : α), Alike s t → d.out i t (c.out i s a) = a
  next : ∀ (i : Nat) (s : σ) (t : τ) (a : α), Alike s t → Alike (c.next i s a) (d.next i t (c.out i s a))

theorem Coder.Undoes.run {d : Coder τ α} {c : Coder σ α} {Alike : σ → τ → Prop} (undoes : d.Undoes c Alike) {s : σ} {t : τ}
    (alike : Alike s t) (i : Nat) (data : List α) : d.run i t (c.run i s data) = data := by
  induction data generalizing i s t with
  | nil => rfl
  | cons a later ih =>
    rw [Coder.run, Coder.run, undoes.out i s t a alike, ih (undoes.next i s t a alike)]

/-- `count` turns of a loop that rewrites the cell at `base + i` and steps `i`. -/
def Coder.sweep (c : Coder σ α) (base : Nat) : Nat → Nat → σ → List.Vector α n → Option (List.Vector α n)
  | 0, _, _, m => some m
  | count + 1, i, s, m =>
    if inside : base + i < n then
      let a := m.get ⟨base + i, inside⟩
      c.sweep base count (i + 1) (c.next i s a) (m.set ⟨base + i, inside⟩ (c.out i s a))
    else none

/-- A sweep rewrites the run of cells as the coder does, and no other. -/
theorem Coder.sweep_toList (c : Coder σ α) (s : σ) (m : List.Vector α n) (inside : base + i + count ≤ n) :
    ∃ m', c.sweep base count i s m = some m' ∧
      m'.toList = m.toList.take (base + i) ++ c.run i s ((m.toList.drop (base + i)).take count) ++
        m.toList.drop (base + i + count) := by
  induction count generalizing i s m with
  | zero =>
    refine ⟨m, rfl, ?_⟩
    simp [Coder.run]
  | succ count ih =>
    have here : base + i < n := by omega
    have stands : base + i < m.toList.length := by
      rw [List.Vector.toList_length]
      exact here
    obtain ⟨m', swept, eq⟩ := ih (i := i + 1) (c.next i s (m.get ⟨base + i, here⟩))
      (m.set ⟨base + i, here⟩ (c.out i s (m.get ⟨base + i, here⟩))) (by omega)
    refine ⟨m', by rw [Coder.sweep, dif_pos here]; exact swept, ?_⟩
    have cell : m.get ⟨base + i, here⟩ = m.toList[base + i] := List.Vector.get_eq_get_toList ..
    have stored (a : α) : (m.set ⟨base + i, here⟩ a).toList = m.toList.set (base + i) a := List.Vector.toList_set ..
    rw [eq, stored, ← Nat.add_assoc, List.drop_set_of_lt (by omega), List.drop_set_of_lt (by omega),
      List.take_set, List.take_succ_eq_append_getElem stands, List.drop_eq_getElem_cons stands, List.take_succ_cons,
      Coder.run, cell, List.set_append_right _ _ (by rw [List.length_take]; omega)]
    have last : base + i - (m.toList.take (base + i)).length = 0 := by
      rw [List.length_take]
      omega
    rw [last, List.set_cons_zero, show base + i + 1 + count = base + i + (count + 1) by omega]
    simp only [List.append_assoc, List.cons_append, List.nil_append]

/-! ### Words, low byte first -/

def toBytes : Nat → Nat → List UInt8
  | 0, _ => []
  | count + 1, x => UInt8.ofNat x :: toBytes count (x / 256)

def ofBytes : List UInt8 → Nat
  | [] => 0
  | b :: later => b.toNat + 256 * ofBytes later

@[simp] theorem toBytes_length (count x : Nat) : (toBytes count x).length = count := by
  induction count generalizing x with
  | zero => rfl
  | succ count ih => rw [toBytes, List.length_cons, ih]

theorem ofBytes_toBytes (count x : Nat) : ofBytes (toBytes count x) = x % 256 ^ count := by
  induction count generalizing x with
  | zero => rw [toBytes, ofBytes, Nat.pow_zero, Nat.mod_one]
  | succ count ih =>
    have low : (UInt8.ofNat x).toNat = x % 256 := UInt8.toNat_ofNat'
    rw [toBytes, ofBytes, ih, low, Nat.pow_succ', Nat.mod_mul]

end Block
