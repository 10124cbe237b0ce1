import WanNet.LockFreeQueue.Nodes

/-!
What the calls know of the pointers they have read, and what a step does to the lists of a
`LockFreeQueue`.
-/

namespace WanNet.LockFreeQueue
open Transition Treiber ObjectPool Threads Chains

variable {α : Type}

/-- A pointer that a call has read from `mHead` or `mTail`. -/
def Seen (chain : List Ptr) (gone : Nat → Prop) (ptr : Ptr) : Prop := ptr ∈ chain ∨ gone ptr.tag

/-- What a call knows. `left` is the last time a node was dequeued: a node that is about to be linked left
the queue before the tail it may be linked to. -/
def Stands (s : Queue α) (chain : List Ptr) (groups : List (List Ptr)) (left : Nat → Nat) (gone : Nat → Prop) : Pc α → Prop
  | .link newTail localMyTail => Seen chain gone localMyTail ∧
      (s.Next localMyTail.address = none → 0 < tally Ptr.address localMyTail.address (chain :: groups)) ∧
      (localMyTail ∈ chain ∨ left newTail.address < left localMyTail.address)
  | .readTailNext _ localMyTail => Seen chain gone localMyTail ∧ (localMyTail ∈ chain → s.Next localMyTail.address ≠ none)
  | .helpTail _ localMyTail localMyTailNext => Seen chain gone localMyTail ∧
      (localMyTail ∈ chain → ∃ ptr, localMyTailNext = some ptr ∧ s.Next localMyTail.address = some ptr)
  | .swapTail newTail localMyTail => Seen chain gone localMyTail ∧ (localMyTail ∈ chain → s.Next localMyTail.address = some newTail)
  | .readTailToTake localMyHead => localMyHead = s.mHead ∨ gone localMyHead.tag
  | .readHeadNext localMyHead localMyTail => (localMyHead = s.mHead ∨ gone localMyHead.tag) ∧
      (localMyHead = s.mHead → localMyTail ≠ some localMyHead → s.mTail ≠ some localMyHead)
  | .readData localMyHead localMyHeadNext => (localMyHead = s.mHead ∨ gone localMyHead.tag) ∧
      (localMyHead = s.mHead → s.mTail ≠ some localMyHead ∧ s.Next localMyHead.address = some localMyHeadNext)
  | .swapHead localMyHead localMyHeadNext outData => (localMyHead = s.mHead ∨ gone localMyHead.tag) ∧
      (localMyHead = s.mHead → s.mTail ≠ some localMyHead ∧ s.Next localMyHead.address = some localMyHeadNext ∧
        outData = s.Data localMyHeadNext.address)
  | _ => True

/-- The first node of the list left the queue after the others. -/
def Leads (left : Nat → Nat) : List Ptr → Prop
  | [] => True
  | new :: rest => ∀ ptr ∈ rest, left ptr.address < left new.address

structure Pointers (s : Queue α) (chain : List Ptr) (groups : List (List Ptr)) (left : Nat → Nat) : Prop where
  tail : ∃ ptr ∈ chain, s.mTail = some ptr
  stands : ∀ (i : Nat) (t : Thread α), s.threads[i]? = some t → Stands s chain groups left (s.Gone (chain :: groups)) t.pc
  leads : ∀ path ∈ groups, Leads left path
  bound : ∀ a, left a ≤ s.taken.length

inductive Effect (s : Queue α) (i : Nat) (pc pc' : Pc α) (chain : List Ptr) (groups : List (List Ptr)) : List Ptr → List (List Ptr) → Prop where
  | none (clears : ∀ new, pc ≠ .writeNext new) (links : ∀ new tail, pc = .link new tail → s.Next tail.address ≠ none)
    (takes : ∀ first outData, pc ≠ .swapHead s.mHead first outData) : Effect s i pc pc' chain groups chain groups
  | clear (new : Ptr) (here : pc = .writeNext new) : Effect s i pc pc' chain groups chain (groups.set i [new])
  | append (new tail p : Ptr) (g l : List Ptr) (here : pc = .link new tail) (there : pc' = .swapTail new tail)
    (at_g : groups[i]? = some (new :: g)) (is : chain = l ++ [p]) (same : p.address = tail.address) :
    Effect s i pc pc' chain groups (chain ++ new :: g) (groups.set i [])
  | attach (new tail p : Ptr) (g l : List Ptr) (j : Nat) (here : pc = .link new tail) (there : pc' = .swapTail new tail)
    (at_g : groups[i]? = some (new :: g)) (at_j : groups[j]? = some (l ++ [p])) (other : i ≠ j) (same : p.address = tail.address) :
    Effect s i pc pc' chain groups chain (join groups i j (new :: g) (l ++ [p]))
  | take (first : Ptr) (rest : List Ptr) (outData : α) (here : pc = .swapHead s.mHead first outData)
    (there : pc' = .free (.takeID s.mHead.address) outData) (is : chain = s.mHead :: first :: rest)
    (data : outData = s.Data first.address) : Effect s i pc pc' chain groups (first :: rest) groups

variable {s u : Queue α} {chain chain' : List Ptr} {groups groups' : List (List Ptr)} {left left' : Nat → Nat} {gone gone' : Nat → Prop}
  {list list' : List Ptr} {paths paths' : List (List Ptr)} {t : Thread α} {pc' : Pc α} {i : Nat} {p q : Ptr}

def Pc.relinks : Pc α → Bool
  | .writeNext _ | .link _ _ | .swapHead _ _ _ => true
  | _ => false

theorem Effect.of_quiet {pc : Pc α} (quiet : pc.relinks = false) : Effect s i pc pc' chain groups chain groups := by
  refine .none (fun new is => ?_) (fun new tail is => ?_) fun first outData is => ?_
  all_goals
    subst is
    cases quiet

/-! ### The lists -/

theorem not_gone (s : Queue α) (groups : List (List Ptr)) (member : p ∈ chain) : ¬ s.Gone (chain :: groups) p.tag := by
  rintro ⟨none, -⟩
  have := tally_of_mem_head Ptr.tag groups member
  unfold Queue.tags at none
  omega

theorem Memory.first (mem : Memory s (chain :: groups) list) : ∃ rest, chain = s.mHead :: rest := by
  cases chain with
  | nil => cases mem.front
  | cons p rest =>
    obtain rfl := Option.some.inj mem.front
    exact ⟨rest, rfl⟩

theorem Memory.elsewhere (mem : Memory s (chain :: groups) list) (on : p ∈ chain) : ∀ path ∈ groups, ∀ ptr ∈ path, ptr.address ≠ p.address := by
  intro path member ptr behind
  obtain ⟨j, at_j⟩ := List.mem_iff_getElem?.mp member
  exact (alone (mem.one _).1 (i := 0) rfl on).2 (j + 1) path (Nat.succ_ne_zero j) at_j ptr behind

theorem Memory.successor (mem : Memory s (chain :: groups) list) (member : p ∈ chain) (next : s.Next p.address = some q) :
    q ∈ chain ∧ q ≠ s.mHead := by
  obtain ⟨l₁, l₂, is, follows⟩ := (mem.chained chain (.head _)).next_of_mem member
  have after : q ∈ l₂ := List.mem_of_mem_head? (follows.symm.trans next)
  have on : q ∈ chain := by
    rw [is]
    exact List.mem_append_right _ (.tail _ after)
  refine ⟨on, fun same => ?_⟩
  obtain ⟨rest, begins⟩ := mem.first
  have once := (alone (mem.one _).1 (i := 0) rfl on).1
  have later : q ∈ rest := by
    cases l₁ with
    | nil =>
      obtain ⟨-, rfl⟩ := List.cons.inj (begins.symm.trans is)
      exact after
    | cons r l₁ =>
      obtain ⟨-, rfl⟩ := List.cons.inj (begins.symm.trans is)
      exact List.mem_append_right _ (.tail _ after)
  have again : 0 < (rest.map Ptr.address).count q.address := List.count_pos_iff.mpr (List.mem_map_of_mem later)
  rw [begins, List.map_cons, List.count_cons, same, beq_self_eq_true, if_pos rfl] at once
  rw [same] at again
  omega

/-! ### What a step leaves known -/

structure Kept (s u : Queue α) (chain : List Ptr) (groups : List (List Ptr)) (left : Nat → Nat) (gone : Nat → Prop)
    (chain' : List Ptr) (groups' : List (List Ptr)) (left' : Nat → Nat) (gone' : Nat → Prop) : Prop where
  gone : ∀ k, gone k → gone' k
  alive : ∀ ptr ∈ chain', ¬ gone' ptr.tag
  kept : ∀ ptr ∈ chain, ptr ∈ chain' ∨ gone' ptr.tag
  next : ∀ ptr ∈ chain, ∀ following, s.Next ptr.address = some following → u.Next ptr.address = some following
  head : u.mHead = s.mHead ∨ gone' s.mHead.tag
  tail : u.mTail = s.mTail ∨ u.mTail ≠ some s.mHead
  data : ∀ ptr ∈ chain, u.Data ptr.address = s.Data ptr.address
  listed : ∀ a, (s.Next a = none → 0 < tally Ptr.address a (chain :: groups)) → u.Next a = none → 0 < tally Ptr.address a (chain' :: groups')
  late : ∀ g ∈ groups, ∀ new ∈ g, ∀ ptr, ptr ∈ chain ∨ left new.address < left ptr.address →
    ptr ∈ chain' ∨ left' new.address < left' ptr.address

theorem Kept.seen (kept : Kept s u chain groups left gone chain' groups' left' gone') (seen : Seen chain gone p) : Seen chain' gone' p := by
  rcases seen with on | off
  · exact kept.kept p on
  · exact .inr (kept.gone _ off)

theorem Kept.was (kept : Kept s u chain groups left gone chain' groups' left' gone') (seen : Seen chain gone p) (on : p ∈ chain') : p ∈ chain :=
  seen.resolve_right fun off => kept.alive p on (kept.gone _ off)

theorem Kept.top (kept : Kept s u chain groups left gone chain' groups' left' gone') (read : p = s.mHead ∨ gone p.tag) :
    p = u.mHead ∨ gone' p.tag := by
  rcases read with rfl | off
  · exact kept.head.imp_left Eq.symm
  · exact .inr (kept.gone _ off)

theorem Kept.was_top (kept : Kept s u chain groups left gone chain' groups' left' gone') (mem : u.mHead ∈ chain')
    (read : p = s.mHead ∨ gone p.tag) (is : p = u.mHead) : p = s.mHead :=
  read.resolve_right fun off => kept.alive _ mem (is ▸ kept.gone _ off)

theorem Kept.untailed (kept : Kept s u chain groups left gone chain' groups' left' gone') (is : p = s.mHead) (apart : s.mTail ≠ some p) :
    u.mTail ≠ some p := by
  subst is
  rcases kept.tail with same | other
  · rw [same]
    exact apart
  · exact other

theorem Stands.frame {pc : Pc α} (stands : Stands s chain groups left gone pc)
    (kept : Kept s u chain groups left gone chain' groups' left' gone') (top : u.mHead ∈ chain') (head : s.mHead ∈ chain)
    (successor : ∀ p ∈ chain, ∀ q, s.Next p.address = some q → q ∈ chain)
    (own : ∀ new, pc.linking = some new → ∃ g ∈ groups, new ∈ g) : Stands u chain' groups' left' gone' pc := by
  cases pc with
  | link new tail =>
    obtain ⟨seen, listed, late⟩ := stands
    obtain ⟨g, member, on⟩ := own new rfl
    exact ⟨kept.seen seen, kept.listed _ listed, kept.late g member new on tail late⟩
  | readTailNext new tail =>
    obtain ⟨seen, linked⟩ := stands
    refine ⟨kept.seen seen, fun on => ?_⟩
    have was := kept.was seen on
    obtain ⟨following, is⟩ := Option.ne_none_iff_exists'.mp (linked was)
    rw [kept.next _ was _ is]
    exact Option.some_ne_none _
  | helpTail new tail following =>
    obtain ⟨seen, linked⟩ := stands
    refine ⟨kept.seen seen, fun on => ?_⟩
    have was := kept.was seen on
    obtain ⟨q, is, follows⟩ := linked was
    exact ⟨q, is, kept.next _ was _ follows⟩
  | swapTail new tail =>
    obtain ⟨seen, linked⟩ := stands
    exact ⟨kept.seen seen, fun on => kept.next _ (kept.was seen on) _ (linked (kept.was seen on))⟩
  | readTailToTake => exact kept.top stands
  | readHeadNext =>
    obtain ⟨read, apart⟩ := stands
    exact ⟨kept.top read, fun is other => kept.untailed (kept.was_top top read is) (apart (kept.was_top top read is) other)⟩
  | readData =>
    obtain ⟨read, linked⟩ := stands
    refine ⟨kept.top read, fun is => ?_⟩
    have was := kept.was_top top read is
    obtain ⟨apart, follows⟩ := linked was
    exact ⟨kept.untailed was apart, kept.next _ (was ▸ head) _ follows⟩
  | swapHead =>
    obtain ⟨read, linked⟩ := stands
    refine ⟨kept.top read, fun is => ?_⟩
    have was := kept.was_top top read is
    obtain ⟨apart, follows, data⟩ := linked was
    refine ⟨kept.untailed was apart, kept.next _ (was ▸ head) _ follows, ?_⟩
    rw [kept.data _ (successor _ (was ▸ head) _ follows)]
    exact data
  | _ => trivial

theorem gone_moved (at_i : s.threads[i]? = some t) (u : Queue α) (mID : s.mID ≤ u.mID) (op : Op α) (pc' : Pc α) (paths paths' : List (List Ptr))
    (fewer : ∀ k ≤ s.mID, tally Ptr.tag k paths' + pc'.takes k ≤ tally Ptr.tag k paths + t.pc.takes k) (k : Nat)
    (gone : s.Gone paths k) : (s.moved u i op pc').Gone paths' k := by
  obtain ⟨none, given⟩ := gone
  have := tags_moved (u := u) at_i (fewer k given) op
  exact ⟨by omega, Nat.le_trans given mID⟩

theorem Pointers.move (pointers : Pointers s chain groups left) (mem : Memory s (chain :: groups) list)
    (mem' : Memory (s.moved u i t.op pc') (chain' :: groups') list')
    (kept : Kept s (s.moved u i t.op pc') chain groups left (s.Gone (chain :: groups)) chain' groups' left'
      ((s.moved u i t.op pc').Gone (chain' :: groups')))
    (tail : ∃ ptr ∈ chain', u.mTail = some ptr)
    (stands : Stands (s.moved u i t.op pc') chain' groups' left' ((s.moved u i t.op pc').Gone (chain' :: groups')) pc')
    (leads : ∀ path ∈ groups', Leads left' path)
    (bound : ∀ a, left' a ≤ u.taken.length) : Pointers (s.moved u i t.op pc') chain' groups' left' := by
  refine ⟨tail, fun j x at_j => ?_, leads, bound⟩
  rcases at_set at_j with ⟨rfl, rfl⟩ | ⟨-, at_j⟩
  · exact stands
  obtain ⟨rest, is⟩ := mem.first
  obtain ⟨rest', is'⟩ := mem'.first
  refine (pointers.stands j x at_j).frame kept (is' ▸ .head _) (is ▸ .head _) (fun p on q next => (mem.successor on next).1) fun new linking => ?_
  obtain ⟨g, at_g, front⟩ := mem.group at_j
  exact ⟨g, List.mem_of_getElem? at_g, List.mem_of_mem_head? (front.trans linking)⟩

/-- A step that writes no `Next` and not to `mHead`. -/
theorem Pointers.still (pointers : Pointers s chain groups left) (mem : Memory s (chain :: groups) list)
    (mem' : Memory (s.moved u i t.op pc') (chain :: groups) list') (at_i : s.threads[i]? = some t)
    (same : u.mHead = s.mHead ∧ u.Next = s.Next ∧ u.taken = s.taken) (mID : s.mID ≤ u.mID)
    (tags : ∀ k ≤ s.mID, pc'.takes k ≤ t.pc.takes k)
    (tail : u.mTail = s.mTail ∨ ∃ ptr ∈ chain, ptr ≠ s.mHead ∧ u.mTail = some ptr)
    (data : ∀ ptr ∈ chain, u.Data ptr.address = s.Data ptr.address)
    (stands : Stands (s.moved u i t.op pc') chain groups left ((s.moved u i t.op pc').Gone (chain :: groups)) pc') :
    Pointers (s.moved u i t.op pc') chain groups left := by
  obtain ⟨mHead, Next, taken⟩ := same
  refine pointers.move mem mem' ⟨?_, fun ptr on => not_gone _ _ on, fun ptr on => .inl on, ?_, .inl mHead, ?_, data, ?_,
    fun _ _ _ _ _ => id⟩ ?_ stands pointers.leads (taken ▸ pointers.bound)
  · exact gone_moved at_i u mID t.op pc' _ _ fun k given => Nat.add_le_add_left (tags k given) _
  · rw [Next]
    exact fun _ _ _ => id
  · refine tail.imp_right fun ⟨ptr, on, apart, is⟩ same => apart ?_
    exact Option.some.inj (is.symm.trans same)
  · rw [Next]
    exact fun _ => id
  · rcases tail with same | ⟨ptr, on, -, is⟩
    · rw [same]
      exact pointers.tail
    · exact ⟨ptr, on, is⟩

/-! ### The steps that write a `Next` or `mHead` -/

variable {new first tail : Ptr} {g l rest : List Ptr} {j : Nat}

theorem Pointers.clear (pointers : Pointers s chain groups left) (mem : Memory s (chain :: groups) list) (at_i : s.threads[i]? = some t)
    (here : t.pc = .writeNext new) :
    Pointers (s.moved { s with Next := fun a => if a = new.address then none else s.Next a } i t.op (.readTail new)) chain
      (groups.set i [new]) left := by
  have unlisted := mem.unlisted at_i (a := new.address) (by rw [here]; rfl)
  have at_g : groups[i]? = some [] := mem.empty at_i (by rw [here]; rfl)
  refine pointers.move mem (mem.writeNext at_i here) ⟨?_, fun ptr on => not_gone _ _ on, fun ptr on => .inl on,
    fun ptr on following next => ?_, .inl rfl, .inl rfl, fun _ _ => rfl, fun a known empty => ?_, fun _ _ _ _ _ => id⟩ pointers.tail trivial
    (fun path member => ?_) pointers.bound
  · exact gone_moved at_i _ (Nat.le_refl _) t.op _ _ _ fun k _ => Nat.le_of_eq (mem.cleared_tags at_i here k)
  · refine (if_neg fun same => ?_).trans next
    have := tally_of_mem_head Ptr.address groups on
    rw [same] at this
    omega
  · by_cases same : a = new.address
    · rw [same]
      have listed : [new] ∈ groups.set i [new] := List.mem_of_getElem? (List.getElem?_set_self (List.getElem?_eq_some_iff.mp at_g).1)
      exact tally_of_mem Ptr.address (.tail _ listed) (.head _)
    · have pos := known ((if_neg same).symm.trans empty)
      have := tally_set Ptr.address a [new] at_g
      rw [tally_cons] at *
      rw [List.map_nil, List.count_nil] at this
      omega
  · rcases List.mem_or_eq_of_mem_set member with old | is
    · exact pointers.leads path old
    · rw [is]
      exact nofun

/-- The CAS on `Next` of the last node of a list. -/
theorem Pointers.linked (pointers : Pointers s chain groups left) (mem : Memory s (chain :: groups) list)
    (at_i : s.threads[i]? = some t) (here : t.pc = .link new tail) (free : s.Next tail.address = none)
    (at_g : groups[i]? = some (new :: g)) (at_j : (chain :: groups)[j]? = some (l ++ [p])) (apart : i + 1 ≠ j) (is : p.address = tail.address)
    (joined : join (chain :: groups) (i + 1) j (new :: g) (l ++ [p]) = chain' :: groups') (grows : ∀ ptr ∈ chain, ptr ∈ chain')
    (leads : ∀ path ∈ groups', Leads left path) :
    Pointers (s.moved { s with Next := fun a => if a = tail.address then some new else s.Next a } i t.op (.swapTail new tail)) chain'
      groups' left := by
  have same (key : Ptr → Nat) (k : Nat) : tally key k (chain' :: groups') = tally key k (chain :: groups) := by
    rw [← joined]
    exact tally_join (i := i + 1) key k at_g at_j apart
  have stands : Stands s chain groups left _ (.link new tail) := here ▸ pointers.stands i t at_i
  have mem' := mem.link at_i here at_g at_j apart is
  rw [joined] at mem'
  have gone := gone_moved at_i { s with Next := fun a => if a = tail.address then some new else s.Next a }
    (Nat.le_refl _) t.op (.swapTail new tail) (chain :: groups) (chain' :: groups') fun k _ => Nat.le_trans (Nat.le_of_eq (same Ptr.tag k)) (Nat.le_add_right _ _)
  refine pointers.move mem mem' ⟨gone, fun ptr on => not_gone _ _ on, fun ptr on => .inl (grows ptr on), fun ptr on following next => ?_, .inl rfl,
    .inl rfl, fun _ _ => rfl, fun a known empty => ?_, fun _ _ _ _ _ late => late.imp_left (grows _)⟩ ?_ ⟨?_, fun _ => if_pos rfl⟩ leads pointers.bound
  · refine (if_neg fun same => ?_).trans next
    rw [same, free] at next
    cases next
  · rw [same]
    refine known ?_
    by_cases same : a = tail.address
    · rw [same]
      exact free
    · exact (if_neg same).symm.trans empty
  · obtain ⟨ptr, on, is⟩ := pointers.tail
    exact ⟨ptr, grows ptr on, is⟩
  · exact stands.1.imp (grows _) (gone _)

theorem Pointers.take (pointers : Pointers s (s.mHead :: first :: rest) groups left)
    (mem : Memory s ((s.mHead :: first :: rest) :: groups) list) (at_i : s.threads[i]? = some t)
    (here : t.pc = .swapHead s.mHead first outData) (writer : Nat × Nat) :
    Pointers (s.moved { s with mHead := first, taken := s.taken ++ [writer] } i t.op (.free (.takeID s.mHead.address) outData))
      (first :: rest) groups (fun a => if a = s.mHead.address then s.taken.length + 1 else left a) := by
  have stands : Stands s (s.mHead :: first :: rest) groups left _ (.swapHead s.mHead first outData) := here ▸ pointers.stands i t at_i
  obtain ⟨untailed, follows, -⟩ := stands.2 rfl
  have counted (key : Ptr → Nat) (k : Nat) : tally key k ((s.mHead :: first :: rest) :: groups) =
      tally key k ((first :: rest) :: groups) + if key s.mHead = k then 1 else 0 := by
    rw [tally_cons, tally_cons, List.map_cons (l := first :: rest), List.count_cons, beq_eq_decide]
    simp only [decide_eq_true_eq]
    omega
  have gone := gone_moved at_i { s with mHead := first, taken := s.taken ++ [writer] } (Nat.le_refl _) t.op
    (.free (.takeID s.mHead.address) outData) ((s.mHead :: first :: rest) :: groups) ((first :: rest) :: groups) fun k _ => by
      have := counted Ptr.tag k
      rw [here]
      show tally Ptr.tag k ((first :: rest) :: groups) + 0 ≤ tally Ptr.tag k ((s.mHead :: first :: rest) :: groups) + 0
      omega
  have off : (s.moved { s with mHead := first, taken := s.taken ++ [writer] } i t.op (.free (.takeID s.mHead.address) outData)).Gone
      ((first :: rest) :: groups) s.mHead.tag := by
    have := tags_set at_i { s with mHead := first, taken := s.taken ++ [writer] } ((s.mHead :: first :: rest) :: groups)
      ((first :: rest) :: groups) t.op (.free (.takeID s.mHead.address) outData) s.mHead.tag
    have none : (Pc.free (.takeID s.mHead.address) outData : Pc α).takes s.mHead.tag = 0 := rfl
    have listed := counted Ptr.tag s.mHead.tag
    obtain ⟨one, given⟩ := mem.tagged s.mHead.tag
    have here : tally Ptr.tag s.mHead.tag ((s.mHead :: first :: rest) :: groups) ≤ s.tags ((s.mHead :: first :: rest) :: groups) s.mHead.tag :=
      Nat.le_add_right _ _
    rw [if_pos rfl] at listed
    exact ⟨by omega, given (by omega)⟩
  have elsewhere (path : List Ptr) (member : path ∈ groups) (ptr : Ptr) (on : ptr ∈ path) : ptr.address ≠ s.mHead.address :=
    mem.elsewhere (.head _) path member ptr on
  refine pointers.move mem (mem.take at_i here _) ⟨gone, fun ptr on => not_gone _ _ on, fun ptr on => ?_, fun _ _ _ => id, .inr off,
    .inl rfl, fun _ _ => rfl, fun a known empty => ?_, fun g member new on ptr late => ?_⟩ ?_ trivial (fun path member => ?_) fun a => ?_
  · rcases List.mem_cons.mp on with rfl | on
    · exact .inr off
    · exact .inl on
  · have pos := known empty
    rw [counted] at pos
    split at pos
    next same =>
      rw [← same, follows] at empty
      cases empty
    next => exact pos
  · have bound := pointers.bound new.address
    rw [if_neg (elsewhere g member new on)]
    rcases late with here | late
    · rcases List.mem_cons.mp here with rfl | here
      · exact .inr (by rw [if_pos rfl]; omega)
      · exact .inl here
    · right
      split <;> omega
  · obtain ⟨ptr, on, is⟩ := pointers.tail
    rcases List.mem_cons.mp on with rfl | on
    · exact absurd is untailed
    · exact ⟨ptr, on, is⟩
  · have lead := pointers.leads path member
    cases path with
    | nil => trivial
    | cons new rest =>
      intro ptr on
      simp only [if_neg (elsewhere _ member _ (.tail _ on)), if_neg (elsewhere _ member _ (.head _))]
      exact lead ptr on
  · rw [List.length_append, List.length_singleton]
    have := pointers.bound a
    split <;> omega

/-- Where the CAS on a free `Next` puts the thread's list: behind another one. -/
theorem Pointers.target (pointers : Pointers s chain groups left) (mem : Memory s (chain :: groups) list) (at_i : s.threads[i]? = some t)
    (here : t.pc = .link new tail) (free : s.Next tail.address = none) : ∃ g j l p, groups[i]? = some (new :: g) ∧
      (chain :: groups)[j]? = some (l ++ [p]) ∧ i + 1 ≠ j ∧ p.address = tail.address ∧ (j ≠ 0 → left new.address < left p.address) := by
  have stands : Stands s chain groups left _ (.link new tail) := here ▸ pointers.stands i t at_i
  obtain ⟨-, listed, late⟩ := stands
  obtain ⟨path, member, p, on, is⟩ := exists_of_tally (listed free)
  obtain ⟨l, behind, rfl, follows⟩ := (mem.chained path member).next_of_mem on
  simp only [is, free] at follows
  obtain rfl := List.head?_eq_none_iff.mp follows.symm
  obtain ⟨j, at_j⟩ := List.mem_iff_getElem?.mp member
  have late : j ≠ 0 → left new.address < left p.address := by
    intro other
    rw [is]
    refine late.resolve_left fun queued => ?_
    have apart := (alone (mem.one _).1 at_j on).2 0 chain (Ne.symm other) rfl tail queued
    exact apart is.symm
  obtain ⟨path, at_g, front⟩ := mem.group at_i
  rw [here] at front
  obtain ⟨x, g, rfl⟩ := List.exists_cons_of_ne_nil (l := path) (by rintro rfl; cases front)
  obtain rfl : x = new := Option.some.inj front
  refine ⟨g, j, l, p, at_g, at_j, fun own => ?_, is, late⟩
  -- a node behind the thread's own left the queue before it
  subst own
  have less := late (Nat.succ_ne_zero i)
  rw [at_j] at at_g
  have own := Option.some.inj at_g
  rw [own] at on
  rcases List.mem_cons.mp on with rfl | on
  · omega
  · have := pointers.leads _ (List.mem_of_getElem? (at_j.trans (congrArg some own))) p on
    omega

theorem Leads.append (lead : Leads left (l ++ [p])) (other : Leads left (new :: g)) (late : left new.address < left p.address) :
    Leads left (l ++ [p] ++ new :: g) := by
  have least (ptr : Ptr) (on : ptr ∈ new :: g) : left ptr.address < left p.address := by
    rcases List.mem_cons.mp on with rfl | on
    · exact late
    · exact Nat.lt_trans (other ptr on) late
  cases l with
  | nil => exact least
  | cons x l =>
    intro ptr on
    rcases List.mem_append.mp on with old | behind
    · exact lead ptr old
    · exact Nat.lt_trans (least ptr behind) (lead p (by simp))

theorem leads_set (leads : ∀ path ∈ groups, Leads left path) (new : Leads left l) (i : Nat) : ∀ path ∈ groups.set i l, Leads left path := by
  intro path member
  rcases List.mem_or_eq_of_mem_set member with old | rfl
  · exact leads path old
  · exact new

/-! ### One step -/

theorem gone_still (at_i : s.threads[i]? = some t) (mID : u.mID = s.mID) (tag : pc'.tag = t.pc.tag) (op : Op α) (paths : List (List Ptr)) :
    (s.moved u i op pc').Gone paths = s.Gone paths := by
  funext k
  have := tags_set at_i u paths paths op pc' k
  have : pc'.takes k = t.pc.takes k := by simp only [Pc.takes, tag]
  have same : (s.moved u i op pc').tags paths k = s.tags paths k := by omega
  unfold Queue.Gone
  rw [same, mID]

/-- A step that links, clears and moves no node. -/
theorem Pointers.quiet (pointers : Pointers s chain groups left) (mem : Memory s (chain :: groups) list) (at_i : s.threads[i]? = some t)
    (same : u.mHead = s.mHead ∧ u.mID = s.mID ∧ u.mNodePool = s.mNodePool ∧ u.Next = s.Next ∧ u.taken = s.taken)
    (idle : t.pc.poolPart = .idle ∧ pc'.poolPart = .idle)
    (kept : pc'.linking = t.pc.linking ∧ pc'.node = t.pc.node ∧ pc'.tag = t.pc.tag)
    (tail : u.mTail = s.mTail ∨ ∃ ptr ∈ chain, ptr ≠ s.mHead ∧ u.mTail = some ptr)
    (data : ∀ ptr ∈ chain, u.Data ptr.address = s.Data ptr.address)
    (stands : Stands (s.moved u i t.op pc') chain groups left (s.Gone (chain :: groups)) pc')
    (effect : Effect s i t.pc pc' chain groups chain groups) :
    ∃ chain' groups' list' left', Memory (s.moved u i t.op pc') (chain' :: groups') list' ∧
      Pointers (s.moved u i t.op pc') chain' groups' left' ∧ Effect s i t.pc pc' chain groups chain' groups' := by
  obtain ⟨mHead, mID, mNodePool, Next, taken⟩ := same
  have mem' := mem.still at_i ⟨mHead, mID, mNodePool, Next⟩ idle kept
  refine ⟨chain, groups, list, left, mem', pointers.still mem mem' at_i ⟨mHead, Next, taken⟩ (Nat.le_of_eq mID.symm) (fun k _ => ?_)
    tail data ?_, effect⟩
  · simp only [Pc.takes, kept.2.2]
    exact Nat.le_refl _
  · rw [gone_still at_i mID kept.2.2]
    exact stands

theorem Pointers.pool_step {pool : Pool} (pointers : Pointers s chain groups left) (mem : Memory s (chain :: groups) list)
    (mem' : Memory (s.moved { s with mNodePool := pool } i t.op pc') (chain :: groups) list') (at_i : s.threads[i]? = some t)
    (tags : ∀ k, pc'.takes k ≤ t.pc.takes k)
    (stands : Stands (s.moved { s with mNodePool := pool } i t.op pc') chain groups left
      ((s.moved { s with mNodePool := pool } i t.op pc').Gone (chain :: groups)) pc')
    (quiet : t.pc.relinks = false) : ∃ chain' groups' list' left', Memory (s.moved { s with mNodePool := pool } i t.op pc') (chain' :: groups') list' ∧
      Pointers (s.moved { s with mNodePool := pool } i t.op pc') chain' groups' left' ∧ Effect s i t.pc pc' chain groups chain' groups' :=
  ⟨chain, groups, list', left, mem', pointers.still mem mem' at_i ⟨rfl, rfl, rfl⟩ (Nat.le_refl _) (fun k _ => tags k) (.inl rfl) (fun _ _ => rfl)
    stands, .of_quiet quiet⟩

/-- A CAS on `mTail` moves it to the node behind, or not at all. -/
theorem Pointers.forward (pointers : Pointers s chain groups left) (mem : Memory s (chain :: groups) list)
    {following : Option Ptr}
    (known : tail ∈ chain → ∃ ptr, following = some ptr ∧ s.Next tail.address = some ptr) :
    (if s.mTail = some tail then following else s.mTail) = s.mTail ∨
      ∃ ptr ∈ chain, ptr ≠ s.mHead ∧ (if s.mTail = some tail then following else s.mTail) = some ptr := by
  split
  next here =>
    obtain ⟨ptr, on, is⟩ := pointers.tail
    obtain rfl : tail = ptr := Option.some.inj (here.symm.trans is)
    obtain ⟨ptr, rfl, follows⟩ := known on
    obtain ⟨on, apart⟩ := mem.successor on follows
    exact .inr ⟨ptr, on, apart, rfl⟩
  next => exact .inl rfl

theorem Pointers.step (pointers : Pointers s chain groups left) (mem : Memory s (chain :: groups) list) (at_i : s.threads[i]? = some t)
    (moved : Moves s i t.op t.pc u pc' r) : ∃ chain' groups' list' left', Memory (s.moved u i t.op pc') (chain' :: groups') list' ∧
      Pointers (s.moved u i t.op pc') chain' groups' left' ∧ Effect s i t.pc pc' chain groups chain' groups' := by
  have stands := pointers.stands i t at_i
  obtain ⟨op, pc⟩ := t
  cases moved with
  | takeID =>
    have mem' := mem.takeID at_i rfl
    refine ⟨chain, groups, list, left, mem', pointers.still mem mem' at_i ⟨rfl, rfl, rfl⟩ (Nat.le_succ _) (fun k given => ?_) (.inl rfl)
      (fun _ _ => rfl) trivial, .of_quiet rfl⟩
    have : (Pc.alloc (s.mID + 1) .readTop : Pc α).takes k = if s.mID + 1 = k then 1 else 0 := by simp [Pc.takes, Pc.tag]
    rw [this, if_neg (by omega)]
    exact Nat.zero_le _
  | alloc localMyId pc pc' pool is =>
    obtain ⟨list', mem'⟩ := mem.alloc at_i rfl (.alloc localMyId pc pc' pool is)
    exact pointers.pool_step mem mem' at_i (fun _ => Nat.le_refl _) trivial rfl
  | allocated localMyId pc newNode pool is =>
    obtain ⟨list', mem'⟩ := mem.alloc at_i rfl (.allocated localMyId pc newNode pool is)
    exact pointers.pool_step mem mem' at_i (fun _ => Nat.le_refl _) trivial rfl
  | writeData new data =>
    have unlisted := mem.unlisted at_i (a := new.address) rfl
    refine pointers.quiet mem at_i ⟨rfl, rfl, rfl, rfl, rfl⟩ ⟨rfl, rfl⟩ ⟨rfl, rfl, rfl⟩ (.inl rfl) (fun ptr on => if_neg fun same => ?_) trivial
      (.of_quiet rfl)
    have := tally_of_mem_head Ptr.address groups on
    rw [same] at this
    omega
  | writeNext new => exact ⟨chain, _, list, left, mem.writeNext at_i rfl, pointers.clear mem at_i rfl, .clear new rfl⟩
  | readTail new tail is =>
    obtain ⟨ptr, on, is'⟩ := pointers.tail
    obtain rfl : tail = ptr := Option.some.inj (is.symm.trans is')
    exact pointers.quiet mem at_i ⟨rfl, rfl, rfl, rfl, rfl⟩ ⟨rfl, rfl⟩ ⟨rfl, rfl, rfl⟩ (.inl rfl) (fun _ _ => rfl)
      ⟨.inl on, fun _ => tally_of_mem_head Ptr.address groups on, .inl on⟩ (.of_quiet rfl)
  | link new tail free =>
    obtain ⟨g, j, l, p, at_g, at_j, apart, is, late⟩ := pointers.target mem at_i rfl free
    have mem' := mem.link at_i rfl at_g at_j apart is
    have none : Leads left [] := trivial
    cases j with
    | zero =>
      obtain rfl : chain = l ++ [p] := Option.some.inj at_j
      exact ⟨_, _, list, left, mem', pointers.linked mem at_i rfl free at_g at_j apart is rfl (fun _ => List.mem_append_left _)
        (leads_set pointers.leads none i), .append new tail p g l rfl rfl at_g rfl is⟩
    | succ j =>
      have lead := (pointers.leads _ (List.mem_of_getElem? at_j)).append (pointers.leads _ (List.mem_of_getElem? at_g))
        (late (Nat.succ_ne_zero j))
      exact ⟨_, _, list, left, mem', pointers.linked mem at_i rfl free at_g at_j apart is rfl (fun _ => id)
        (leads_set (leads_set pointers.leads lead j) none i), .attach new tail p g l j rfl rfl at_g at_j (by omega) is⟩
  | linkFails new tail linked =>
    refine pointers.quiet mem at_i ⟨rfl, rfl, rfl, rfl, rfl⟩ ⟨rfl, rfl⟩ ⟨rfl, rfl, rfl⟩ (.inl rfl) (fun _ _ => rfl) ⟨stands.1, fun _ => linked⟩
      (.none (fun _ is => by cases is) ?_ (fun _ _ is => by cases is))
    rintro _ _ ⟨⟩
    exact linked
  | readTailNext new tail =>
    refine pointers.quiet mem at_i ⟨rfl, rfl, rfl, rfl, rfl⟩ ⟨rfl, rfl⟩ ⟨rfl, rfl, rfl⟩ (.inl rfl) (fun _ _ => rfl) ⟨stands.1, fun on => ?_⟩
      (.of_quiet rfl)
    obtain ⟨ptr, is⟩ := Option.ne_none_iff_exists'.mp (stands.2 on)
    exact ⟨ptr, is, is⟩
  | helpTail =>
    refine pointers.quiet mem at_i ⟨rfl, rfl, rfl, rfl, rfl⟩ ⟨rfl, rfl⟩ ⟨rfl, rfl, rfl⟩ ?_ (fun _ _ => rfl) trivial (.of_quiet rfl)
    exact pointers.forward mem stands.2
  | swapTail =>
    refine pointers.quiet mem at_i ⟨rfl, rfl, rfl, rfl, rfl⟩ ⟨rfl, rfl⟩ ⟨rfl, rfl, rfl⟩ ?_ (fun _ _ => rfl) trivial (.of_quiet rfl)
    exact pointers.forward mem fun on => ⟨_, rfl, stands.2 on⟩
  | readHead => exact pointers.quiet mem at_i ⟨rfl, rfl, rfl, rfl, rfl⟩ ⟨rfl, rfl⟩ ⟨rfl, rfl, rfl⟩ (.inl rfl) (fun _ _ => rfl) (.inl rfl) (.of_quiet rfl)
  | readTailToTake =>
    exact pointers.quiet mem at_i ⟨rfl, rfl, rfl, rfl, rfl⟩ ⟨rfl, rfl⟩ ⟨rfl, rfl, rfl⟩ (.inl rfl) (fun _ _ => rfl)
      ⟨stands, fun _ other => other⟩ (.of_quiet rfl)
  | readHeadNext head first tail other is =>
    exact pointers.quiet mem at_i ⟨rfl, rfl, rfl, rfl, rfl⟩ ⟨rfl, rfl⟩ ⟨rfl, rfl, rfl⟩ (.inl rfl) (fun _ _ => rfl)
      ⟨stands.1, fun top => ⟨stands.2 top (Ne.symm other), is⟩⟩ (.of_quiet rfl)
  | readData =>
    exact pointers.quiet mem at_i ⟨rfl, rfl, rfl, rfl, rfl⟩ ⟨rfl, rfl⟩ ⟨rfl, rfl, rfl⟩ (.inl rfl) (fun _ _ => rfl)
      ⟨stands.1, fun top => ⟨(stands.2 top).1, (stands.2 top).2, rfl⟩⟩ (.of_quiet rfl)
  | swapHead first outData =>
    obtain ⟨-, follows, data⟩ := stands.2 rfl
    obtain ⟨rest, rfl⟩ := mem.first
    have path := (mem.chained _ (.head _)).2
    have path : Linked (fun ptr => s.Next ptr.address) (some first) rest := by rw [← follows]; exact path
    cases rest with
    | nil => cases path
    | cons p rest =>
      obtain rfl := Option.some.inj path.1
      exact ⟨_, groups, list, _, mem.take at_i rfl _, pointers.take mem at_i rfl _, .take first rest outData rfl rfl rfl data⟩
  | swapHeadFails head first outData other =>
    refine pointers.quiet mem at_i ⟨rfl, rfl, rfl, rfl, rfl⟩ ⟨rfl, rfl⟩ ⟨rfl, rfl, rfl⟩ (.inl rfl) (fun _ _ => rfl) trivial
      (.none (fun _ is => by cases is) (fun _ _ is => by cases is) fun _ _ same => other ?_)
    cases same
    rfl
  | free pc pc' outData pool is =>
    obtain ⟨list', mem'⟩ := mem.free at_i rfl (.free pc pc' outData pool is)
    exact pointers.pool_step mem mem' at_i (fun _ => Nat.le_refl _) trivial rfl
  | freed pc outData pool is =>
    obtain ⟨list', mem'⟩ := mem.free at_i rfl (.freed pc outData pool is)
    exact pointers.pool_step mem mem' at_i (fun _ => Nat.le_refl _) trivial rfl
  | count | testEmpty | testCount | headIsTail | headIsLast | retestEmpty | retestCount | uncount =>
    exact pointers.quiet mem at_i ⟨rfl, rfl, rfl, rfl, rfl⟩ ⟨rfl, rfl⟩ ⟨rfl, rfl, rfl⟩ (.inl rfl) (fun _ _ => rfl) trivial (.of_quiet rfl)

theorem Pointers.call (pointers : Pointers s chain groups left) (mem : Memory s (chain :: groups) list) (op : Op α) :
    Pointers (s.called op) chain (groups ++ [[]]) left := by
  refine ⟨pointers.tail, fun i t at_i => ?_, fun path member => ?_, pointers.bound⟩
  · rcases at_append_one at_i with old | ⟨-, rfl⟩
    · obtain ⟨rest, is⟩ := mem.first
      refine (pointers.stands i t old).frame ⟨fun k none => ?_, fun ptr on => not_gone _ _ on, fun ptr on => .inl on, fun _ _ _ => id, .inl rfl,
        .inl rfl, fun _ _ => rfl, fun a known empty => ?_, fun _ _ _ _ _ => id⟩ (is ▸ .head _) (is ▸ .head _)
        (fun p on q next => (mem.successor on next).1) fun new linking => ?_
      · obtain ⟨none, given⟩ := none
        exact ⟨(tags_called s (chain :: groups) op k).trans none, given⟩
      · have same := tally_enter Ptr.address a (chain :: groups)
        exact Nat.lt_of_lt_of_eq (known empty) same.symm
      · obtain ⟨g, at_g, front⟩ := mem.group old
        exact ⟨g, List.mem_of_getElem? at_g, List.mem_of_mem_head? (front.trans linking)⟩
    · cases op <;> trivial
  · rcases List.mem_append.mp member with old | new
    · exact pointers.leads path old
    · obtain rfl := List.mem_singleton.mp new
      trivial

theorem Pointers.recorded (pointers : Pointers s chain groups left) (history : List (Concurrent.Event (Op α) (Ret α))) :
    Pointers { s with history := history } chain groups left :=
  ⟨pointers.tail, pointers.stands, pointers.leads, pointers.bound⟩

theorem Pointers.init (data : Nat → α) : Pointers ({ Data := data } : Queue α) [⟨0, 0⟩] [] fun _ => 0 := by
  refine ⟨⟨_, .head _, rfl⟩, fun i t at_i => ?_, fun path member => ?_, fun _ => Nat.le_refl _⟩
  · cases at_i
  · cases member

end WanNet.LockFreeQueue
