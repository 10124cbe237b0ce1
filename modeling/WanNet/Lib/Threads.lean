import Mathlib.Algebra.Order.BigOperators.Group.List
import Mathlib.Algebra.Order.Ring.Nat
import Mathlib.Tactic.Push

/-!
Counting over a list of threads of which one at a time moves: `total w` adds up a weight, and a
step of the `i`-th thread changes it by the difference of two weights.
-/

namespace Threads

variable {α β : Type} {u v w : α → Nat} {l : List α} {a b : α} {i : Nat}

def total (w : α → Nat) (l : List α) : Nat := (l.map w).sum

@[simp] theorem total_nil : total w [] = 0 := rfl

theorem total_append (l m : List α) : total w (l ++ m) = total w l + total w m := by simp [total]

@[simp] theorem total_append_one : total w (l ++ [a]) = total w l + w a := by simp [total]

theorem total_map (f : β → α) (l : List β) : total w (l.map f) = total (fun b => w (f b)) l := by
  simp [total, Function.comp_def]

theorem total_set (h : l[i]? = some a) : total w (l.set i b) + w a = total w l + w b := by
  induction l generalizing i with
  | nil => simp at h
  | cons x l ih =>
    cases i with
    | zero =>
      obtain rfl : x = a := by simpa using h
      simp only [total, List.set_cons_zero, List.map_cons, List.sum_cons]
      omega
    | succ i =>
      have rest := ih (i := i) (by simpa using h)
      simp only [total, List.set_cons_succ, List.map_cons, List.sum_cons] at rest ⊢
      omega

theorem total_set_congr (h : l[i]? = some a) (same : ∀ j c, j ≠ i → l[j]? = some c → v c = w c) :
    total v (l.set i b) + w a = total w l + v b := by
  induction l generalizing i with
  | nil => simp at h
  | cons x l ih =>
    cases i with
    | zero =>
      obtain rfl : x = a := by simpa using h
      have rest : l.map v = l.map w := List.map_congr_left fun c member => by
        obtain ⟨j, at_j⟩ := List.mem_iff_getElem?.mp member
        exact same (j + 1) c (Nat.succ_ne_zero j) (by simpa using at_j)
      simp only [total, List.set_cons_zero, List.map_cons, List.sum_cons, rest]
      omega
    | succ i =>
      have rest := ih (i := i) (by simpa using h) fun j c other at_j => same (j + 1) c (by omega) (by simpa using at_j)
      have head : v x = w x := same 0 x (by omega) rfl
      simp only [total, List.set_cons_succ, List.map_cons, List.sum_cons] at rest ⊢
      omega

theorem set_same (at_i : l[i]? = some a) : l.set i a = l := by
  obtain ⟨lt, rfl⟩ := List.getElem?_eq_some_iff.mp at_i
  exact List.set_getElem_self lt

/-- After a step of the `i`-th thread, a thread is that one or one of the others. -/
theorem at_set {c : α} {j : Nat} (at_j : (l.set i b)[j]? = some c) : j = i ∧ c = b ∨ j ≠ i ∧ l[j]? = some c := by
  by_cases here : j = i
  · subst here
    have lt := (List.getElem?_eq_some_iff.mp at_j).1
    rw [List.length_set] at lt
    rw [List.getElem?_set_self lt] at at_j
    exact .inl ⟨rfl, (Option.some.inj at_j).symm⟩
  · rw [List.getElem?_set_ne (Ne.symm here)] at at_j
    exact .inr ⟨here, at_j⟩

theorem elim_set {γ : Type} {f : α → γ} {d : γ} (at_i : l[i]? = some a) (b : α) (j : Nat) :
    ((l.set i b)[j]?).elim d f = if j = i then f b else (l[j]?).elim d f := by
  split
  next here =>
    subst here
    rw [List.getElem?_set_self (List.getElem?_eq_some_iff.mp at_i).1]
    rfl
  next other => rw [List.getElem?_set_ne (Ne.symm other)]

theorem mem_set_at {c : α} (member : c ∈ l.set i b) : c = b ∨ ∃ j, j ≠ i ∧ l[j]? = some c := by
  obtain ⟨j, at_j⟩ := List.mem_iff_getElem?.mp member
  rcases at_set at_j with ⟨-, is⟩ | other
  · exact .inl is
  · exact .inr ⟨j, other⟩

theorem mem_set_of_ne {c : α} (at_i : l[i]? = some a) (member : c ∈ l) (apart : c ≠ a) : c ∈ l.set i b := by
  obtain ⟨j, at_j⟩ := List.mem_iff_getElem?.mp member
  refine List.mem_iff_getElem?.mpr ⟨j, ?_⟩
  rw [List.getElem?_set_ne, at_j]
  rintro rfl
  exact apart (Option.some.inj (at_j.symm.trans at_i))

theorem at_append_one {c : α} {j : Nat} (at_j : (l ++ [a])[j]? = some c) : l[j]? = some c ∨ j = l.length ∧ c = a := by
  rcases Nat.lt_trichotomy j l.length with old | rfl | beyond
  · rw [List.getElem?_append_left old] at at_j
    exact .inl at_j
  · rw [List.getElem?_concat_length] at at_j
    exact .inr ⟨rfl, (Option.some.inj at_j).symm⟩
  · rw [List.getElem?_eq_none (by rw [List.length_append]; exact beyond)] at at_j
    cases at_j

theorem elim_append_one {γ : Type} {f : α → γ} {d : γ} (l : List α) (a : α) (j : Nat) :
    ((l ++ [a])[j]?).elim d f = if j = l.length then f a else (l[j]?).elim d f := by
  split
  next here =>
    rw [here, List.getElem?_concat_length]
    rfl
  next other =>
    rcases Nat.lt_or_gt_of_ne other with old | beyond
    · rw [List.getElem?_append_left old]
    · rw [List.getElem?_eq_none (by rw [List.length_append]; exact beyond), List.getElem?_eq_none (Nat.le_of_lt beyond)]

theorem le_total (h : a ∈ l) : w a ≤ total w l :=
  List.single_le_sum (fun _ _ => Nat.zero_le _) _ (List.mem_map_of_mem h)

/-- A weight that is nothing or one counts those that have it. -/
theorem length_filter_add_total (each : ∀ a ∈ l, w a ≤ 1) : (l.filter fun a => w a = 0).length + total w l = l.length := by
  induction l with
  | nil => rfl
  | cons a l ih =>
    have rest := ih fun b inside => each b (.tail _ inside)
    have one := each a (.head _)
    rw [List.filter_cons]
    simp only [total, List.map_cons, List.sum_cons, List.length_cons] at rest ⊢
    by_cases none : w a = 0
    · rw [if_pos (by simpa using none), List.length_cons]
      omega
    · rw [if_neg (by simpa using none)]
      omega

theorem add_le_total {j : Nat} (at_i : l[i]? = some a) (at_j : l[j]? = some b) (apart : j ≠ i) :
    w a + w b ≤ total w l := by
  induction l generalizing i j with
  | nil => simp at at_i
  | cons x l ih =>
    have head : total w (x :: l) = w x + total w l := by simp [total]
    rw [head]
    cases i with
    | zero =>
      cases j with
      | zero => exact absurd rfl apart
      | succ j =>
        obtain rfl : x = a := by simpa using at_i
        exact Nat.add_le_add_left (le_total (List.mem_of_getElem? (by simpa using at_j))) _
    | succ i =>
      cases j with
      | zero =>
        obtain rfl : x = b := by simpa using at_j
        rw [Nat.add_comm]
        exact Nat.add_le_add_left (le_total (List.mem_of_getElem? (by simpa using at_i))) _
      | succ j =>
        have := ih (i := i) (j := j) (by simpa using at_i) (by simpa using at_j) (by omega)
        omega

theorem total_le_total (h : ∀ a, u a ≤ v a) (l : List α) : total u l ≤ total v l :=
  List.sum_le_sum fun a _ => h a

theorem total_add (h : ∀ a, w a = u a + v a) : total w l = total u l + total v l := by
  simp only [total, ← List.sum_map_add]
  congr 2
  exact funext h

theorem total_eq_zero : total w l = 0 ↔ ∀ a ∈ l, w a = 0 := by
  simp [total, List.sum_eq_zero_iff]

theorem exists_of_total_pos (h : 0 < total w l) : ∃ a ∈ l, 0 < w a := by
  by_contra none
  push Not at none
  have := total_eq_zero.mpr fun a ha => Nat.le_zero.mp (none a ha)
  omega

/-- One more item counts: the one that belongs to the `i`-th thread. -/
theorem countP_add {f : β → Nat} {q q' : β → Bool} {l : List β} (others : ∀ b ∈ l, f b ≠ i → q' b = q b)
    (own : ∀ b ∈ l, f b = i → q b = false ∧ q' b = true) : l.countP q' = l.countP q + (l.map f).count i := by
  induction l with
  | nil => rfl
  | cons b l ih =>
    have rest := ih (fun c member => others c (.tail _ member)) fun c member => own c (.tail _ member)
    rw [List.countP_cons, List.countP_cons, List.map_cons, List.count_cons, rest]
    by_cases here : f b = i
    · obtain ⟨off, on⟩ := own b (.head _) here
      rw [off, on, here, beq_self_eq_true, if_pos rfl, if_neg Bool.false_ne_true]
      omega
    · rw [others b (.head _) here, if_neg (show ¬ (f b == i) = true by simpa using here)]
      omega

/-! ### What the threads hold -/

theorem map_set_same {f : α → β} (at_i : l[i]? = some a) (same : f b = f a) : (l.set i b).map f = l.map f := by
  rw [List.map_set, same, ← List.map_set, set_same at_i]

theorem filterMap_set_same {f : α → Option β} (at_i : l[i]? = some a) (same : f b = f a) : (l.set i b).filterMap f = l.filterMap f := by
  have whole (l : List α) : l.filterMap f = (l.map f).filterMap id := by
    rw [List.filterMap_map]
    rfl
  rw [whole, whole l, map_set_same at_i same]

theorem filterMap_eraseIdx {f : α → Option β} (at_i : l[i]? = some a) (none : f a = none) : (l.eraseIdx i).filterMap f = l.filterMap f := by
  induction l generalizing i with
  | nil => cases at_i
  | cons x l ih =>
    cases i with
    | zero =>
      obtain rfl := Option.some.inj at_i
      rw [List.eraseIdx_cons_zero, List.filterMap_cons, none]
    | succ i => rw [List.eraseIdx_cons_succ, List.filterMap_cons, List.filterMap_cons, ih at_i]

theorem flatMap_set_same {f : α → List β} (at_i : l[i]? = some a) (same : f b = f a) : (l.set i b).flatMap f = l.flatMap f := by
  rw [List.flatMap_def, List.flatMap_def, List.map_set, same, ← List.map_set, set_same at_i]

/-- All there is, is with the thread that moves. -/
theorem flatMap_set_alone {f : α → List β} (at_i : l[i]? = some a) (others : ∀ j c, j ≠ i → l[j]? = some c → f c = []) (b : α) :
    (l.set i b).flatMap f = f b := by
  induction l generalizing i with
  | nil => simp at at_i
  | cons x l ih =>
    cases i with
    | zero =>
      have none : l.flatMap f = [] := List.flatMap_eq_nil_iff.mpr fun c member => by
        obtain ⟨j, at_j⟩ := List.mem_iff_getElem?.mp member
        exact others (j + 1) c (Nat.succ_ne_zero j) (by simpa using at_j)
      rw [List.set_cons_zero, List.flatMap_cons, none, List.append_nil]
    | succ i =>
      have rest := ih (i := i) (by simpa using at_i) fun j c other at_j => others (j + 1) c (by omega) (by simpa using at_j)
      rw [List.set_cons_succ, List.flatMap_cons, others 0 x (by omega) rfl, rest, List.nil_append]

end Threads
