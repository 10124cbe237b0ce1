import Mathlib.Data.List.Basic
import Mathlib.Data.List.Nodup

/-!
A pool of reference-counted objects: one whose count has come down to 0 goes back to the pool, and
the pool hands out what it got back, or makes a new one.
-/

namespace RefPool

/-- The objects, numbered as they are made; `freed` are those in the pool. -/
structure Pool (α : Type) where
  object : Nat → α
  freed : List Nat := []
  made : Nat := 0

variable {α : Type} {s s' : Pool α} {count : α → Nat} {a : α} {n m j : Nat}

def Pool.set (s : Pool α) (n : Nat) (a : α) : Pool α := { s with object := fun m => if m = n then a else s.object m }

/-- One of the freed objects, or a new one. -/
def Pool.take (s : Pool α) (j : Nat) : Nat × Pool α :=
  match s.freed[j]? with
  | some n => (n, { s with freed := s.freed.eraseIdx j })
  | none => (s.made, { s with made := s.made + 1 })

/-- An object with its new count, which goes back to the pool when there are no references left. -/
def Pool.drop (s : Pool α) (count : α → Nat) (n : Nat) (a : α) : Pool α :=
  if count a = 0 then { s.set n a with freed := n :: s.freed } else s.set n a

@[simp] theorem set_self (s : Pool α) (n : Nat) (a : α) : (s.set n a).object n = a := if_pos rfl

theorem set_other (s : Pool α) (a : α) (apart : m ≠ n) : (s.set n a).object m = s.object m := if_neg apart

@[simp] theorem set_freed (s : Pool α) (n : Nat) (a : α) : (s.set n a).freed = s.freed := rfl

@[simp] theorem set_made (s : Pool α) (n : Nat) (a : α) : (s.set n a).made = s.made := rfl

@[simp] theorem drop_object (s : Pool α) (count : α → Nat) (n : Nat) (a : α) : (s.drop count n a).object = (s.set n a).object := by
  unfold Pool.drop
  split <;> rfl

@[simp] theorem take_object (s : Pool α) (j : Nat) : (s.take j).2.object = s.object := by
  unfold Pool.take
  split <;> rfl

theorem take_cases (s : Pool α) (j : Nat) :
    (∃ n, s.freed[j]? = some n ∧ s.take j = (n, { s with freed := s.freed.eraseIdx j })) ∨
      s.take j = (s.made, { s with made := s.made + 1 }) := by
  unfold Pool.take
  split
  next n at_j => exact .inl ⟨n, at_j, rfl⟩
  next => exact .inr rfl

theorem made_le_take (s : Pool α) (j : Nat) : s.made ≤ (s.take j).2.made := by
  unfold Pool.take
  split
  · exact Nat.le_refl _
  · exact Nat.le_succ _

/-- In the pool is what has been made and has no reference left, once. -/
structure Pool.Sound (count : α → Nat) (s : Pool α) : Prop where
  listed : ∀ n, n ∈ s.freed ↔ n < s.made ∧ count (s.object n) = 0
  once : s.freed.Nodup
  unmade : ∀ n, s.made ≤ n → count (s.object n) = 0

theorem Pool.Sound.made_of_count (sound : s.Sound count) (used : 0 < count (s.object n)) : n < s.made := by
  by_contra beyond
  have := sound.unmade n (by omega)
  omega

theorem Pool.Sound.not_freed (sound : s.Sound count) (used : 0 < count (s.object n)) : n ∉ s.freed := by
  intro freed
  have := ((sound.listed n).mp freed).2
  omega

/-- An object in use changes and stays in use. -/
theorem Pool.Sound.set (sound : s.Sound count) (used : 0 < count (s.object n)) (uses : 0 < count a) : (s.set n a).Sound count := by
  refine ⟨fun m => ?_, sound.once, fun m beyond => ?_⟩
  · by_cases here : m = n
    · subst here
      have := sound.not_freed used
      simp only [set_freed, set_self]
      constructor
      · intro freed
        exact absurd freed this
      · rintro ⟨-, none⟩
        omega
    · rw [set_freed, set_made, set_other s a here]
      exact sound.listed m
  · have apart : m ≠ n := by
      rintro rfl
      have := sound.unmade m beyond
      omega
    rw [set_other s a apart]
    exact sound.unmade m beyond

/-- One reference less. -/
theorem Pool.Sound.drop (sound : s.Sound count) (used : 0 < count (s.object n)) (a : α) : (s.drop count n a).Sound count := by
  by_cases last : count a = 0
  · have made := sound.made_of_count used
    have elsewhere := sound.not_freed used
    unfold Pool.drop
    rw [if_pos last]
    refine ⟨fun m => ?_, List.nodup_cons.mpr ⟨elsewhere, sound.once⟩, fun m beyond => ?_⟩
    · simp only [List.mem_cons]
      by_cases here : m = n
      · subst here
        simp [made, last]
      · rw [set_made, set_other s a here]
        constructor
        · rintro (rfl | freed)
          · exact absurd rfl here
          · exact (sound.listed m).mp freed
        · intro unused
          exact .inr ((sound.listed m).mpr unused)
    · have apart : m ≠ n := by
        rintro rfl
        exact absurd made (Nat.not_lt.mpr beyond)
      show count ((s.set n a).object m) = 0
      rw [set_other s a apart]
      exact sound.unmade m beyond
  · unfold Pool.drop
    rw [if_neg last]
    exact sound.set used (Nat.pos_of_ne_zero last)

/-- What the pool hands out has no reference, and is in the pool no longer. -/
theorem Pool.Sound.taken (sound : s.Sound count) (j : Nat) :
    count (s.object (s.take j).1) = 0 ∧ (s.take j).1 ∉ (s.take j).2.freed ∧ (s.take j).1 < (s.take j).2.made ∧
      (∀ m, m ∈ s.freed ↔ m ∈ (s.take j).2.freed ∨ m = (s.take j).1 ∧ m < s.made) := by
  unfold Pool.take
  split
  next n at_j =>
    have member := List.mem_of_getElem? at_j
    obtain ⟨lt, is⟩ := List.getElem?_eq_some_iff.mp at_j
    obtain ⟨made, unused⟩ := (sound.listed n).mp member
    have whole : s.freed = s.freed.take j ++ n :: s.freed.drop (j + 1) := by
      rw [← is, List.getElem_cons_drop, List.take_append_drop]
    have erased : s.freed.eraseIdx j = s.freed.take j ++ s.freed.drop (j + 1) := List.eraseIdx_eq_take_drop_succ ..
    have once := sound.once
    rw [whole] at once
    refine ⟨unused, ?_, made, fun m => ?_⟩
    · rw [erased]
      exact (List.nodup_middle.mp once).notMem
    · rw [erased]
      conv_lhs => rw [whole]
      simp only [List.mem_append, List.mem_cons]
      constructor
      · rintro (before | rfl | after)
        · exact .inl (.inl before)
        · exact .inr ⟨rfl, made⟩
        · exact .inl (.inr after)
      · rintro ((before | after) | ⟨rfl, -⟩)
        · exact .inl before
        · exact .inr (.inr after)
        · exact .inr (.inl rfl)
  next none =>
    refine ⟨sound.unmade _ (Nat.le_refl _), fun freed => ?_, Nat.lt_succ_self _, fun m => ⟨.inl, ?_⟩⟩
    · exact absurd ((sound.listed _).mp freed).1 (Nat.lt_irrefl _)
    · rintro (freed | ⟨rfl, lt⟩)
      · exact freed
      · exact absurd lt (Nat.lt_irrefl _)

theorem Pool.Sound.take_nodup (sound : s.Sound count) (j : Nat) : (s.take j).2.freed.Nodup := by
  unfold Pool.take
  split
  · exact sound.once.sublist (List.eraseIdx_sublist _ _)
  · exact sound.once

/-- An object is handed out with its first reference. -/
theorem Pool.Sound.alloc (sound : s.Sound count) (j : Nat) (uses : 0 < count a) : ((s.take j).2.set (s.take j).1 a).Sound count := by
  obtain ⟨unused, gone, made, others⟩ := sound.taken j
  refine ⟨fun m => ?_, sound.take_nodup j, fun m beyond => ?_⟩
  · by_cases here : m = (s.take j).1
    · subst here
      simp only [set_freed, set_self]
      constructor
      · intro freed
        exact absurd freed gone
      · rintro ⟨-, none⟩
        omega
    · have same : m ∈ s.freed ↔ m ∈ (s.take j).2.freed := by simp [others m, here]
      have older : m < (s.take j).2.made ↔ m < s.made := by
        rcases take_cases s j with ⟨n, -, eq⟩ | eq
        · rw [eq]
        · rw [eq] at here ⊢
          simp only at here ⊢
          omega
      rw [set_freed, set_made, set_other _ a here, take_object, ← same, older]
      exact sound.listed m
  · have apart : m ≠ (s.take j).1 := by
      rintro rfl
      exact absurd made (Nat.not_lt.mpr beyond)
    rw [set_other _ a apart, take_object]
    exact sound.unmade m (Nat.le_trans (made_le_take s j) beyond)

end RefPool
