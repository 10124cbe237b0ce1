import WanNet.Lib.Linked
import WanNet.Lib.Threads

/-!
Lock-free stacks whose pointers carry a tag: a thread that pushes writes its node's `next` and swaps
the top for the node, a thread that pops reads the top, then its `next`, and swaps the one for the
other. What keeps the list in order, and why a swap that finds the tag it read installs the right
node when no tag comes back.
-/

namespace Treiber
open Threads

structure Ptr where
  address : Nat
  tag : Nat
  deriving DecidableEq

/-- Where a thread stands: it has a node to itself, with or without a tag and with its `next` written
or not, or it has read the top, or the top and its `next`. -/
inductive Part where
  | idle
  | owns (node : Nat)
  | pushing (new : Ptr)
  | linked (new : Ptr) (old : Option Ptr)
  | popping (top : Ptr)
  | swapping (top : Ptr) (following : Option Ptr)
  deriving DecidableEq

def Part.node : Part → Option Nat
  | .owns node => some node
  | .pushing new | .linked new _ => some new.address
  | _ => none

def Part.new : Part → Option Ptr
  | .pushing new | .linked new _ => some new
  | _ => none

def Part.top : Part → Option Ptr
  | .popping top | .swapping top _ => some top
  | _ => none

def holds (a : Nat) (x : Part) : Nat := if x.node = some a then 1 else 0

def pushes (t : Nat) (x : Part) : Nat := if x.new.map Ptr.tag = some t then 1 else 0

/-- How many owners a node has: the list, and the threads. -/
def owners (list : List Ptr) (parts : List Part) (a : Nat) : Nat := (list.map Ptr.address).count a + total (holds a) parts

/-- The list from the top, and what the threads that push have written. -/
structure Ordered (top : Option Ptr) (next : Nat → Option Ptr) (parts : List Part) (list : List Ptr) : Prop where
  path : Linked (fun ptr => next ptr.address) top list
  written : ∀ new old, .linked new old ∈ parts → next new.address = old

/-- A tag that a thread has taken and put on the list. -/
def Spent (issued : Nat → Prop) (parts : List Part) (t : Nat) : Prop := total (pushes t) parts = 0 ∧ issued t

/-- No tag is taken twice, or known before it was put on the list. -/
structure Tagged (issued : Nat → Prop) (next : Nat → Option Ptr) (parts : List Part) (list : List Ptr) : Prop where
  spent : ∀ ptr ∈ list, Spent issued parts ptr.tag
  unique : ∀ t, total (pushes t) parts ≤ 1 ∧ (0 < total (pushes t) parts → issued t)
  tops : ∀ x ∈ parts, ∀ ptr ∈ x.top, Spent issued parts ptr.tag
  knows : ∀ top following, .swapping top following ∈ parts → top ∈ list → next top.address = following

variable {issued issued' : Nat → Prop} {top : Option Ptr} {next next' : Nat → Option Ptr} {parts : List Part}
  {list : List Ptr} {x y : Part} {new ptr : Ptr} {i a : Nat}

/-! ### Owners -/

theorem holds_of_node (own : x.node = some a) : holds a x = 1 := if_pos own

theorem holds_congr (same : y.node = x.node) (a : Nat) : holds a y = holds a x := by
  unfold holds
  rw [same]

theorem owners_set (list : List Ptr) (a : Nat) (at_i : parts[i]? = some x) (y : Part) :
    owners list (parts.set i y) a + holds a x = owners list parts a + holds a y := by
  have := total_set (w := holds a) (b := y) at_i
  unfold owners
  omega

theorem owners_cons (new : Ptr) (list : List Ptr) (parts : List Part) (a : Nat) : owners (new :: list) parts a = owners list parts a + if new.address = a then 1 else 0 := by
  unfold owners
  rw [List.map_cons, List.count_cons, beq_eq_decide]
  simp only [decide_eq_true_eq]
  omega

theorem owners_of_mem (parts : List Part) (member : ptr ∈ list) : 0 < owners list parts ptr.address :=
  Nat.add_pos_left (List.count_pos_iff.mpr (List.mem_map_of_mem member)) _

theorem owners_of_node (list : List Ptr) (at_i : parts[i]? = some x) (own : x.node = some a) : 0 < owners list parts a := by
  have := le_total (w := holds a) (List.mem_of_getElem? at_i)
  rw [holds_of_node own] at this
  exact Nat.add_pos_right _ this

/-- A node that a thread has is not on the list, and no other thread has it. -/
theorem apart (one : owners list parts a ≤ 1) (at_i : parts[i]? = some x) (own : x.node = some a) :
    (∀ ptr ∈ list, ptr.address ≠ a) ∧ ∀ j y, j ≠ i → parts[j]? = some y → y.node ≠ some a := by
  have held := le_total (w := holds a) (List.mem_of_getElem? at_i)
  rw [holds_of_node own] at held
  unfold owners at one
  refine ⟨fun ptr member same => ?_, fun j y apart at_j other => ?_⟩
  · have : 0 < (list.map Ptr.address).count a := List.count_pos_iff.mpr (same ▸ List.mem_map_of_mem member)
    omega
  · have two := add_le_total (w := holds a) at_i at_j apart
    rw [holds_of_node own, holds_of_node other] at two
    omega

theorem owners_idle : owners list (parts ++ [.idle]) a = owners list parts a := by
  unfold owners
  rw [total_append_one]
  rfl

/-! ### The list -/

/-- A step that leaves the list as it is, and writes to nothing but the thread's own node. -/
theorem Ordered.frame (ord : Ordered top next parts list) (one : ∀ a, owners list parts a ≤ 1) (at_i : parts[i]? = some x)
    (others : ∀ a, x.node ≠ some a → next' a = next a) (written : ∀ new old, y = .linked new old → next' new.address = old) :
    Ordered top next' (parts.set i y) list := by
  refine ⟨ord.path.congr fun ptr member => others _ fun own => ?_, fun new old member => ?_⟩
  · exact (apart (one _) at_i own).1 ptr member rfl
  · rcases mem_set_at member with is | ⟨j, other, at_j⟩
    · exact written new old is.symm
    · rw [others _ fun own => (apart (one _) at_i own).2 j _ other at_j rfl]
      exact ord.written new old (List.mem_of_getElem? at_j)

theorem Ordered.release (ord : Ordered top next parts list) (y : Part) (quiet : y.new = Option.none) :
    Ordered top next (parts.set i y) list := by
  refine ⟨ord.path, fun new old member => ?_⟩
  rcases List.mem_or_eq_of_mem_set member with old' | rfl
  · exact ord.written new old old'
  · cases quiet

theorem Ordered.enter (ord : Ordered top next parts list) : Ordered top next (parts ++ [.idle]) list := by
  refine ⟨ord.path, fun new old member => ?_⟩
  rcases List.mem_append.mp member with old' | is
  · exact ord.written new old old'
  · cases List.mem_singleton.mp is

/-- A write to a node that nobody has. -/
theorem Ordered.create (ord : Ordered top next parts list) (none : owners list parts a = 0)
    (others : ∀ b, b ≠ a → next' b = next b) (y : Part) (quiet : y.new = Option.none) :
    Ordered top next' (parts.set i y) list := by
  refine ⟨ord.path.congr fun ptr member => others _ fun same => ?_, fun new old member => ?_⟩
  · have := owners_of_mem parts member
    rw [same] at this
    omega
  · rcases List.mem_or_eq_of_mem_set member with old' | rfl
    · rw [others _ fun same => ?_]
      · exact ord.written new old old'
      · obtain ⟨j, at_j⟩ := List.mem_iff_getElem?.mp old'
        have := owners_of_node list at_j (a := new.address) rfl
        rw [same] at this
        omega
    · cases quiet

/-- A swap of the top for its successor. -/
theorem Ordered.pop (ord : Ordered (some ptr) next parts list) (quiet : y.new = Option.none) :
    ∃ rest, list = ptr :: rest ∧ Ordered (next ptr.address) next (parts.set i y) rest := by
  obtain ⟨rest, rfl⟩ : ∃ rest, list = ptr :: rest := ⟨_, List.eq_cons_of_mem_head? ord.path.head.symm⟩
  refine ⟨rest, rfl, ord.path.2, fun new old member => ?_⟩
  rcases List.mem_or_eq_of_mem_set member with old' | rfl
  · exact ord.written new old old'
  · cases quiet

/-- A swap of the top for a node linked to it. -/
theorem Ordered.push (ord : Ordered top next parts list) (at_i : parts[i]? = some (.linked new top))
    (quiet : y.new = Option.none) : Ordered (some new) next (parts.set i y) (new :: list) := by
  refine ⟨⟨rfl, ?_⟩, fun other old member => ?_⟩
  · show Linked _ (next new.address) list
    rw [ord.written new top (List.mem_of_getElem? at_i)]
    exact ord.path
  · rcases List.mem_or_eq_of_mem_set member with old' | rfl
    · exact ord.written other old old'
    · cases quiet

/-! ### Tags -/

theorem pushes_congr (same : y.new.map Ptr.tag = x.new.map Ptr.tag) (t : Nat) : pushes t y = pushes t x := by
  unfold pushes
  rw [same]

theorem Spent.congr (same : total (pushes t) parts' = total (pushes t) parts) (spent : Spent issued parts t) :
    Spent issued parts' t :=
  ⟨same.trans spent.1, spent.2⟩

theorem pushes_set (at_i : parts[i]? = some x) (same : y.new.map Ptr.tag = x.new.map Ptr.tag) (t : Nat) :
    total (pushes t) (parts.set i y) = total (pushes t) parts := by
  have := total_set (w := pushes t) (b := y) at_i
  rw [pushes_congr same] at this
  omega

theorem Tagged.frame {list' : List Ptr} (tagged : Tagged issued next parts list) (at_i : parts[i]? = some x)
    (same : y.new.map Ptr.tag = x.new.map Ptr.tag) (fewer : ∀ ptr ∈ list', ptr ∈ list)
    (listed : ∀ ptr ∈ list', next' ptr.address = next ptr.address) (tops : ∀ ptr ∈ y.top, Spent issued parts ptr.tag)
    (knows : ∀ top following, y = .swapping top following → top ∈ list' → next' top.address = following) :
    Tagged issued next' (parts.set i y) list' := by
  have pushed := pushes_set at_i same
  refine ⟨fun ptr member => (tagged.spent ptr (fewer ptr member)).congr (pushed _), fun t => ?_, fun z hz ptr top => ?_,
    fun top following hz member => ?_⟩
  · rw [pushed]
    exact tagged.unique t
  · rcases List.mem_or_eq_of_mem_set hz with old | rfl
    · exact (tagged.tops z old ptr top).congr (pushed _)
    · exact (tops ptr top).congr (pushed _)
  · rcases List.mem_or_eq_of_mem_set hz with old | is
    · rw [listed top member]
      exact tagged.knows top following old (fewer top member)
    · exact knows top following is.symm member

theorem Tagged.release (tagged : Tagged issued next parts list) (at_i : parts[i]? = some x) (without : x.new = none) (y : Part)
    (quiet : y.new = none ∧ y.top = none) : Tagged issued next (parts.set i y) list := by
  refine tagged.frame at_i (by rw [without, quiet.1]) (fun _ => id) (fun _ _ => rfl) (by simp [quiet.2]) fun top following is => ?_
  rw [is] at quiet
  cases quiet.2

theorem Tagged.enter (tagged : Tagged issued next parts list) : Tagged issued next (parts ++ [.idle]) list := by
  have pushed (t : Nat) : total (pushes t) (parts ++ [.idle]) = total (pushes t) parts := total_append_one
  refine ⟨fun ptr member => (tagged.spent ptr member).congr (pushed _), fun t => ?_, fun z hz ptr top => ?_,
    fun top following hz member => ?_⟩
  · rw [pushed]
    exact tagged.unique t
  · rcases List.mem_append.mp hz with old | is
    · exact (tagged.tops z old ptr top).congr (pushed _)
    · cases List.mem_singleton.mp is
      cases top
  · rcases List.mem_append.mp hz with old | is
    · exact tagged.knows top following old member
    · cases List.mem_singleton.mp is

theorem Tagged.push (tagged : Tagged issued next parts list) (at_i : parts[i]? = some (.linked new top)) :
    Tagged issued next (parts.set i .idle) (new :: list) := by
  have pushed (t : Nat) : total (pushes t) (parts.set i .idle) + (if new.tag = t then 1 else 0) = total (pushes t) parts := by
    have := total_set (w := pushes t) (b := .idle) at_i
    have : pushes t .idle = 0 := rfl
    have : pushes t (.linked new top) = if new.tag = t then 1 else 0 := by simp [pushes, Part.new]
    omega
  have spent {t : Nat} (spent : Spent issued parts t) : Spent issued (parts.set i .idle) t := by
    have := pushed t
    exact ⟨by have := spent.1; omega, spent.2⟩
  -- nobody has read the new top yet
  have unspent : ¬ Spent issued parts new.tag := fun spent => by
    have := pushed new.tag
    rw [if_pos rfl, spent.1] at this
    omega
  refine ⟨fun ptr listed => ?_, fun t => ?_, fun z hz ptr top => ?_, fun ptr following hz listed => ?_⟩
  · rcases List.mem_cons.mp listed with rfl | old
    · have := pushed ptr.tag
      have := tagged.unique ptr.tag
      rw [if_pos rfl] at *
      exact ⟨by omega, this.2 (by omega)⟩
    · exact spent (tagged.spent ptr old)
  · have := pushed t
    have := tagged.unique t
    exact ⟨by omega, fun pos => this.2 (by omega)⟩
  · rcases List.mem_or_eq_of_mem_set hz with old | rfl
    · exact spent (tagged.tops z old ptr top)
    · cases top
  · rcases List.mem_or_eq_of_mem_set hz with old | is
    · rcases List.mem_cons.mp listed with rfl | listed
      · exact absurd (tagged.tops _ old ptr rfl) unspent
      · exact tagged.knows ptr following old listed
    · cases is

/-- A thread takes a tag that was not taken before. -/
theorem Tagged.take (tagged : Tagged issued next parts list) (at_i : parts[i]? = some (.owns a)) (fresh : ¬ issued t)
    (issues : ∀ u, issued' u ↔ issued u ∨ u = t) : Tagged issued' next (parts.set i (.pushing ⟨a, t⟩)) list := by
  have pushed (u : Nat) : total (pushes u) (parts.set i (.pushing ⟨a, t⟩)) = total (pushes u) parts + if t = u then 1 else 0 := by
    have := total_set (w := pushes u) (b := .pushing ⟨a, t⟩) at_i
    have : pushes u (.owns a) = 0 := rfl
    have : pushes u (.pushing ⟨a, t⟩) = if t = u then 1 else 0 := by simp [pushes, Part.new]
    omega
  have spent {u : Nat} (spent : Spent issued parts u) : Spent issued' (parts.set i (.pushing ⟨a, t⟩)) u := by
    have other : t ≠ u := fun same => fresh (same ▸ spent.2)
    exact ⟨by rw [pushed, spent.1, if_neg other], (issues u).mpr (.inl spent.2)⟩
  refine ⟨fun ptr member => spent (tagged.spent ptr member), fun u => ?_, fun z hz ptr top => ?_, fun top following hz member => ?_⟩
  · rw [pushed, issues]
    obtain ⟨one, issuer⟩ := tagged.unique u
    by_cases new : t = u
    · have : ¬ 0 < total (pushes u) parts := fun pos => fresh (new ▸ issuer pos)
      exact ⟨by rw [if_pos new]; omega, fun _ => .inr new.symm⟩
    · rw [if_neg new]
      exact ⟨one, fun pos => .inl (issuer pos)⟩
  · rcases List.mem_or_eq_of_mem_set hz with old | rfl
    · exact spent (tagged.tops z old ptr top)
    · cases top
  · rcases List.mem_or_eq_of_mem_set hz with old | is
    · exact tagged.knows top following old member
    · cases is

end Treiber
