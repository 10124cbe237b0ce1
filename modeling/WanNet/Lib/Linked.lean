import Mathlib.Data.List.Basic

/-!
Linked lists in a heap: the nodes that following `next` visits, and what a write to one node does
to them.
-/

/-- Following `next` from `start` visits the nodes of the list, and ends. -/
def Linked {P : Type} (next : P → Option P) : Option P → List P → Prop
  | start, [] => start = none
  | start, p :: rest => start = some p ∧ Linked next (next p) rest

namespace Linked

variable {P : Type} {next next' : P → Option P} {start : Option P} {p q : P} {l l₁ l₂ : List P}

instance decidable [DecidableEq P] (next : P → Option P) : (start : Option P) → (l : List P) → Decidable (Linked next start l)
  | start, [] => inferInstanceAs (Decidable (start = none))
  | start, p :: rest =>
    have := Linked.decidable next (next p) rest
    inferInstanceAs (Decidable (start = some p ∧ _))

theorem head (path : Linked next start l) : start = l.head? := by
  cases l with
  | nil => exact path
  | cons p l => exact path.1

theorem unique (path : Linked next start l₁) (other : Linked next start l₂) : l₁ = l₂ := by
  induction l₁ generalizing start l₂ with
  | nil =>
    cases l₂ with
    | nil => rfl
    | cons q l₂ => cases path.symm.trans other.1
  | cons p l₁ ih =>
    cases l₂ with
    | nil => cases path.1.symm.trans other
    | cons q l₂ =>
      obtain rfl := Option.some.inj (path.1.symm.trans other.1)
      rw [ih path.2 other.2]

theorem congr (same : ∀ p ∈ l, next' p = next p) (path : Linked next start l) : Linked next' start l := by
  induction l generalizing start with
  | nil => exact path
  | cons p l ih =>
    refine ⟨path.1, ?_⟩
    rw [same p (.head _)]
    exact ih (fun q member => same q (.tail _ member)) path.2

theorem append (path : Linked next start (l₁ ++ p :: l₂)) : next p = l₂.head? ∧ Linked next (next p) l₂ := by
  induction l₁ generalizing start with
  | nil => exact ⟨path.2.head, path.2⟩
  | cons q l₁ ih => exact ih path.2

theorem next_of_mem (path : Linked next start l) (member : p ∈ l) : ∃ l₁ l₂, l = l₁ ++ p :: l₂ ∧ next p = l₂.head? := by
  obtain ⟨l₁, l₂, rfl⟩ := List.mem_iff_append.mp member
  exact ⟨l₁, l₂, rfl, path.append.1⟩

/-- A list cut behind a node, and another one put there. -/
theorem graft (path : Linked next start (l ++ p :: l₁)) (same : ∀ q ∈ l, next' q = next q) (behind : Linked next' (next' p) l₂) :
    Linked next' start (l ++ p :: l₂) := by
  induction l generalizing start with
  | nil => exact ⟨path.1, behind⟩
  | cons q l ih =>
    refine ⟨path.1, ?_⟩
    rw [same q (.head _)]
    exact ih path.2 fun r member => same r (.tail _ member)

theorem cut (path : Linked next start (l₁ ++ p :: l₂)) (same : ∀ q ∈ l₁, next' q = next q) (last : next' p = none) :
    Linked next' start (l₁ ++ [p]) :=
  path.graft same last

end Linked
