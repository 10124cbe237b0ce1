import WanNet.Lib.Treiber

/-!
Several linked lists in one heap, no node on two of them: how many nodes with an address or a tag they
have, and what becomes of them when one list is put behind another.
-/

namespace Chains
open Treiber Threads

variable (key : Ptr → Nat) (k : Nat) {a i j : Nat} {next next' : Nat → Option Ptr} {paths : List (List Ptr)} {path l g : List Ptr}
  {p q : Ptr}

/-- How many nodes of the lists have the key `k`. -/
def tally (key : Ptr → Nat) (k : Nat) (paths : List (List Ptr)) : Nat := total (fun path => (path.map key).count k) paths

/-- Each list can be followed to its end. -/
def Paths (next : Nat → Option Ptr) (paths : List (List Ptr)) : Prop :=
  ∀ path ∈ paths, Linked (fun ptr => next ptr.address) path.head? path

theorem tally_cons : tally key k (path :: paths) = (path.map key).count k + tally key k paths := by simp [tally, total]

theorem tally_set (l : List Ptr) (at_i : paths[i]? = some g) :
    tally key k (paths.set i l) + (g.map key).count k = tally key k paths + (l.map key).count k :=
  total_set (w := fun path => (path.map key).count k) at_i

theorem tally_enter (paths : List (List Ptr)) : tally key k (paths ++ [[]]) = tally key k paths := by simp [tally]

theorem tally_congr {key key' : Ptr → Nat} (same : ∀ path ∈ paths, ∀ p ∈ path, key p = key' p) (k : Nat) :
    tally key k paths = tally key' k paths := by
  unfold tally total
  exact congrArg List.sum (List.map_congr_left fun path member => by rw [List.map_congr_left (same path member)])

theorem tally_of_mem (member : path ∈ paths) (on : p ∈ path) : 0 < tally key (key p) paths := by
  have here : 0 < (path.map key).count (key p) := List.count_pos_iff.mpr (List.mem_map_of_mem on)
  exact Nat.lt_of_lt_of_le here (le_total (w := fun path => (path.map key).count (key p)) member)

theorem tally_of_mem_head (paths : List (List Ptr)) (on : p ∈ path) : 0 < tally key (key p) (path :: paths) :=
  tally_of_mem key (.head _) on

variable {key k}

theorem exists_of_tally (pos : 0 < tally key k paths) : ∃ path ∈ paths, ∃ p ∈ path, key p = k := by
  obtain ⟨path, member, here⟩ := exists_of_total_pos pos
  exact ⟨path, member, List.mem_map.mp (List.count_pos_iff.mp here)⟩

theorem alone (one : tally key (key p) paths ≤ 1) (at_i : paths[i]? = some path) (on : p ∈ path) :
    (path.map key).count (key p) = 1 ∧ ∀ j l, j ≠ i → paths[j]? = some l → ∀ q ∈ l, key q ≠ key p := by
  have here : 0 < (path.map key).count (key p) := List.count_pos_iff.mpr (List.mem_map_of_mem on)
  have most := le_total (w := fun path => (path.map key).count (key p)) (List.mem_of_getElem? at_i)
  refine ⟨by unfold tally at one; omega, fun j l other at_j q member same => ?_⟩
  have there : 0 < (l.map key).count (key p) := List.count_pos_iff.mpr (same ▸ List.mem_map_of_mem member)
  have both := add_le_total (w := fun path => (path.map key).count (key p)) at_i at_j other
  unfold tally at one
  omega

/-- The `i`-th list goes behind the `j`-th. -/
def join (paths : List (List Ptr)) (i j : Nat) (g l : List Ptr) : List (List Ptr) := (paths.set j (l ++ g)).set i []

theorem tally_join (key : Ptr → Nat) (k : Nat) (at_i : paths[i]? = some g) (at_j : paths[j]? = some l) (apart : i ≠ j) :
    tally key k (join paths i j g l) = tally key k paths := by
  have grown := tally_set key k (l ++ g) at_j
  have still : (paths.set j (l ++ g))[i]? = some g := by rw [List.getElem?_set_ne apart.symm, at_i]
  have emptied := tally_set key k [] still
  rw [List.map_append, List.count_append] at grown
  rw [List.map_nil, List.count_nil] at emptied
  unfold join
  omega

theorem Paths.congr (chained : Paths next paths) (same : ∀ path ∈ paths, ∀ p ∈ path, next' p.address = next p.address) :
    Paths next' paths :=
  fun path member => (chained path member).congr fun p on => same path member p on

theorem Paths.set (chained : Paths next paths) (new : Linked (fun ptr => next ptr.address) g.head? g) : Paths next (paths.set i g) := by
  intro path member
  rcases List.mem_or_eq_of_mem_set member with old | rfl
  · exact chained path old
  · exact new

/-- The last node of the `j`-th list is made to point at the first of the `i`-th. -/
theorem Paths.join (chained : Paths next paths) (one : ∀ a, tally Ptr.address a paths ≤ 1) (at_i : paths[i]? = some (q :: g))
    (at_j : paths[j]? = some (l ++ [p])) (apart : i ≠ j) (linked : next' p.address = some q)
    (others : ∀ a, a ≠ p.address → next' a = next a) : Paths next' (join paths i j (q :: g) (l ++ [p])) := by
  obtain ⟨once, elsewhere⟩ := alone (one _) at_j (p := p) (by simp)
  have before (r : Ptr) (member : r ∈ l) : r.address ≠ p.address := by
    intro same
    rw [List.map_append, List.count_append] at once
    have : 0 < (l.map Ptr.address).count p.address := List.count_pos_iff.mpr (same ▸ List.mem_map_of_mem member)
    simp at once
    omega
  have behind : Linked (fun ptr => next' ptr.address) (some q) (q :: g) :=
    (chained _ (List.mem_of_getElem? at_i)).congr fun r member => others _ (elsewhere i _ apart at_i r member)
  intro path member
  rcases mem_set_at member with rfl | ⟨n, other, at_n⟩
  · rfl
  by_cases here : n = j
  · subst here
    have lt := (List.getElem?_eq_some_iff.mp at_j).1
    rw [List.getElem?_set_self lt] at at_n
    obtain rfl := Option.some.inj at_n
    have whole := (chained _ (List.mem_of_getElem? at_j)).graft (fun r member => others _ (before r member)) (linked ▸ behind)
    rw [List.append_assoc, List.singleton_append]
    cases l with
    | nil => exact whole
    | cons r l => exact whole
  · rw [List.getElem?_set_ne (Ne.symm here)] at at_n
    exact (chained path (List.mem_of_getElem? at_n)).congr fun r member => others _ (elsewhere n path here at_n r member)

end Chains
