import WanNet.LockFreeQueue.Pointers

/-!
`mCount` against the nodes of the queue, while every `Enqueue` links its node to the queue itself.
-/

namespace WanNet.LockFreeQueue
open Transition Treiber ObjectPool Threads Chains

variable {α : Type}

/-- 1 for an `Enqueue` that has linked its node and not raised `mCount`. -/
def Pc.uncounted : Pc α → Nat
  | .swapTail _ _ | .count => 1
  | _ => 0

/-- 1 for a `TryDequeue` that has taken a node and not lowered `mCount`. -/
def Pc.undone : Pc α → Nat
  | .free _ _ | .uncount _ => 1
  | _ => 0

/-- A `TryDequeue` past its first test of `mCount`. -/
def Pc.inside : Pc α → Bool
  | .testCount => false
  | pc => pc.dequeuing

def Pc.counts : Pc α → Bool
  | .count => true
  | _ => false

def OneDequeuer (s : Queue α) : Label α → Prop
  | .call .tryDequeue => ∀ t ∈ s.threads, t.pc.dequeuing = false
  | _ => True

instance (s : Queue α) (l : Label α) : Decidable (OneDequeuer s l) :=
  match l with
  | .call .tryDequeue => inferInstanceAs (Decidable (∀ t ∈ s.threads, t.pc.dequeuing = false))
  | .call (.enqueue _) | .thread _ => .isTrue trivial

def CountFits (s : Queue α) : Label α → Prop
  | .thread i => ∀ t ∈ s.threads[i]?, t.pc.counts = true → s.mCount + 1 < 2 ^ 32
  | .call _ => True

instance (s : Queue α) (l : Label α) : Decidable (CountFits s l) :=
  match l with
  | .thread i => inferInstanceAs (Decidable (∀ t ∈ s.threads[i]?, t.pc.counts = true → s.mCount + 1 < 2 ^ 32))
  | .call _ => .isTrue trivial

/-- The node whose `Next` a call's CAS is about to write. -/
def Pc.target : Pc α → Option Ptr
  | .link _ localMyTail => some localMyTail
  | _ => none

/-- What a step does to the queue when no node is linked elsewhere. -/
inductive Plain (s : Queue α) (pc pc' : Pc α) (chain : List Ptr) : List Ptr → Prop where
  | none (links : ∀ new tail, pc = .link new tail → s.Next tail.address ≠ none)
    (takes : ∀ first outData, pc ≠ .swapHead s.mHead first outData) : Plain s pc pc' chain chain
  | append (new tail p : Ptr) (l : List Ptr) (here : pc = .link new tail) (there : pc' = .swapTail new tail)
    (is : chain = l ++ [p]) (same : p.address = tail.address) : Plain s pc pc' chain (chain ++ [new])
  | take (first : Ptr) (rest : List Ptr) (outData : α) (here : pc = .swapHead s.mHead first outData)
    (there : pc' = .free (.takeID s.mHead.address) outData) (is : chain = s.mHead :: first :: rest)
    (data : outData = s.Data first.address) : Plain s pc pc' chain (first :: rest)

variable {s u : Queue α} {chain chain' : List Ptr} {groups groups' : List (List Ptr)} {list : List Ptr} {t : Thread α} {pc' : Pc α} {i : Nat}
  {r : Option (Ret α)}

theorem single_set {g : List Ptr} (single : ∀ g ∈ groups, g.length ≤ 1) (short : g.length ≤ 1) (i : Nat) :
    ∀ h ∈ groups.set i g, h.length ≤ 1 := by
  intro h member
  rcases List.mem_or_eq_of_mem_set member with old | rfl
  · exact single h old
  · exact short

theorem Effect.plain {pc : Pc α} (effect : Effect s i pc pc' chain groups chain' groups') (single : ∀ g ∈ groups, g.length ≤ 1)
    (apart : ∀ new tail, pc = .link new tail → pc' = .swapTail new tail → ∀ g ∈ groups, ∀ p ∈ g, p.address ≠ tail.address) :
    Plain s pc pc' chain chain' ∧ ∀ g ∈ groups', g.length ≤ 1 := by
  cases effect with
  | none clears links takes => exact ⟨.none links takes, single⟩
  | clear new here =>
    subst here
    exact ⟨.none (fun _ _ is => by cases is) (fun _ _ is => by cases is), single_set single (Nat.le_refl _) i⟩
  | append new tail p g l here there at_g is same =>
    have short := single _ (List.mem_of_getElem? at_g)
    obtain rfl : g = [] := List.eq_nil_of_length_eq_zero (Nat.le_zero.mp (Nat.le_of_succ_le_succ short))
    exact ⟨.append new tail p l here there is same, single_set single (Nat.zero_le _) i⟩
  | attach new tail p g l j here there at_g at_j other same =>
    exact absurd same (apart new tail here there _ (List.mem_of_getElem? at_j) p (by simp))
  | take first rest outData here there is data => exact ⟨.take first rest outData here there is data, single⟩

structure Counted (s : Queue α) (chain : List Ptr) : Prop where
  word : s.mCount < 2 ^ 32
  count : s.mCount + total (fun t => t.pc.uncounted) s.threads + 1 = chain.length + total (fun t => t.pc.undone) s.threads
  alone : total (fun t => t.pc.dequeuing.toNat) s.threads ≤ 1
  pos : ∀ t ∈ s.threads, t.pc.inside = true → 0 < s.mCount

theorem dequeuing_of_inside {pc : Pc α} (inside : pc.inside = true) : pc.dequeuing = true := by
  cases pc with
  | testCount => rfl
  | _ => exact inside

theorem Counted.move (counted : Counted s chain) (at_i : s.threads[i]? = some t) (word : u.mCount < 2 ^ 32)
    (count : u.mCount + pc'.uncounted + t.pc.undone + chain.length = s.mCount + t.pc.uncounted + pc'.undone + chain'.length)
    (dequeuing : pc'.dequeuing = true → t.pc.dequeuing = true) (lowers : u.mCount < s.mCount → t.pc.dequeuing = true)
    (inside : pc'.inside = true → 0 < u.mCount) : Counted (s.moved u i t.op pc') chain' := by
  have before := counted.count
  have alone := counted.alone
  refine ⟨word, ?_, ?_, fun x member within => ?_⟩
  · have := total_set (w := fun t : Thread α => t.pc.uncounted) (b := ⟨t.op, pc'⟩) at_i
    have := total_set (w := fun t : Thread α => t.pc.undone) (b := ⟨t.op, pc'⟩) at_i
    simp only at *
    omega
  · have change := total_set (w := fun t : Thread α => t.pc.dequeuing.toNat) (b := ⟨t.op, pc'⟩) at_i
    have less : pc'.dequeuing.toNat ≤ t.pc.dequeuing.toNat := by
      cases here : pc'.dequeuing with
      | false => exact Nat.zero_le _
      | true => rw [dequeuing here]
    simp only at *
    omega
  · rcases mem_set_at member with rfl | ⟨j, other, at_j⟩
    · exact inside within
    have pos := counted.pos x (List.mem_of_getElem? at_j) within
    by_cases lower : u.mCount < s.mCount
    · have both := add_le_total (w := fun t : Thread α => t.pc.dequeuing.toNat) at_i at_j other
      simp only [lowers lower, dequeuing_of_inside within, Bool.toNat_true] at both
      omega
    · exact Nat.lt_of_lt_of_le pos (Nat.le_of_not_lt lower)

/-- A step that leaves `mCount` and the queue alone. -/
theorem Counted.still (counted : Counted s chain) (at_i : s.threads[i]? = some t) (mCount : u.mCount = s.mCount)
    (same : pc'.uncounted = t.pc.uncounted ∧ pc'.undone = t.pc.undone) (dequeuing : pc'.dequeuing = true → t.pc.dequeuing = true)
    (inside : pc'.inside = true → t.pc.inside = true ∨ 0 < s.mCount) : Counted (s.moved u i t.op pc') chain := by
  obtain ⟨uncounted, undone⟩ := same
  refine counted.move at_i (mCount ▸ counted.word) (by omega) dequeuing (fun lower => by omega) fun within => ?_
  rw [mCount]
  rcases inside within with before | pos
  · exact counted.pos t (List.mem_of_getElem? at_i) before
  · exact pos

theorem Counted.step (counted : Counted s chain) (at_i : s.threads[i]? = some t) (moved : Moves s i t.op t.pc u pc' r)
    (plain : Plain s t.pc pc' chain chain') (fits : t.pc.counts = true → s.mCount + 1 < 2 ^ 32) : Counted (s.moved u i t.op pc') chain' := by
  obtain ⟨op, pc⟩ := t
  cases plain with
  | append new tail p l here there is same =>
    obtain rfl : pc = .link new tail := here
    subst there
    cases moved
    refine counted.move at_i counted.word ?_ id (fun lower => absurd lower (Nat.lt_irrefl _)) (by simp [Pc.inside, Pc.dequeuing])
    show s.mCount + 1 + 0 + chain.length = s.mCount + 0 + 0 + (chain ++ [new]).length
    rw [List.length_append, List.length_singleton]
    omega
  | take first rest outData here there is data =>
    obtain rfl : pc = .swapHead s.mHead first outData := here
    have pos := counted.pos _ (List.mem_of_getElem? at_i) rfl
    subst there
    cases moved
    refine counted.move at_i counted.word ?_ (fun _ => rfl) (fun _ => rfl) fun _ => pos
    subst is
    show s.mCount + 0 + 0 + (rest.length + 2) = s.mCount + 0 + 1 + (rest.length + 1)
    omega
  | none links takes =>
    cases moved with
    | count =>
      have room := fits rfl
      refine counted.move at_i (inc32_lt _) ?_ (by simp [Pc.dequeuing]) (fun lower => ?_) (by simp [Pc.inside, Pc.dequeuing])
      · show inc32 s.mCount + 0 + 0 + chain.length = s.mCount + 1 + 0 + chain.length
        simp only [inc32_eq room, Nat.add_zero]
      · have lower : inc32 s.mCount < s.mCount := lower
        rw [inc32_eq room] at lower
        omega
    | uncount outData =>
      have pos := counted.pos _ (List.mem_of_getElem? at_i) rfl
      refine counted.move at_i (dec32_lt _) ?_ (fun _ => rfl) (fun _ => rfl) (by simp [Pc.inside, Pc.dequeuing])
      show dec32 s.mCount + 0 + 1 + chain.length = s.mCount + 0 + 0 + chain.length
      rw [dec32_eq pos counted.word]
      omega
    | testCount left => exact counted.still at_i rfl ⟨rfl, rfl⟩ (fun _ => rfl) fun _ => .inr (Nat.pos_of_ne_zero left)
    | link new tail free => exact absurd free (links new tail rfl)
    | swapHead first outData => exact absurd rfl (takes first outData)
    | _ => exact counted.still at_i rfl ⟨rfl, rfl⟩ (by simp [Pc.dequeuing]) (by simp [Pc.inside, Pc.dequeuing])

theorem Counted.call (counted : Counted s chain) (op : Op α) (turn : OneDequeuer s (.call op)) : Counted (s.called op) chain := by
  obtain ⟨uncounted, undone, inside⟩ : op.begin.uncounted = 0 ∧ op.begin.undone = 0 ∧ op.begin.inside = false := by
    cases op <;> exact ⟨rfl, rfl, rfl⟩
  refine ⟨counted.word, ?_, ?_, fun t member within => ?_⟩
  · rw [total_append_one, total_append_one, uncounted, undone]
    exact counted.count
  · rw [total_append_one]
    cases op with
    | enqueue => exact counted.alone
    | tryDequeue =>
      have none : total (fun t : Thread α => t.pc.dequeuing.toNat) s.threads = 0 :=
        total_eq_zero.mpr fun t member => by rw [turn t member]; rfl
      rw [none]
      exact Nat.le_refl _
  · rcases List.mem_append.mp member with old | new
    · exact counted.pos t old within
    · obtain rfl := List.mem_singleton.mp new
      rw [inside] at within
      cases within

theorem Counted.init (data : Nat → α) : Counted ({ Data := data } : Queue α) [⟨0, 0⟩] :=
  ⟨Nat.two_pow_pos 32, rfl, Nat.zero_le _, fun _ member => by cases member⟩

structure Orderly (s : Queue α) (chain : List Ptr) (groups : List (List Ptr)) : Prop where
  memory : ∃ list, Memory s (chain :: groups) list
  pointers : ∃ left, Pointers s chain groups left
  single : ∀ g ∈ groups, g.length ≤ 1
  counted : Counted s chain

theorem Orderly.init (data : Nat → α) : Orderly ({ Data := data } : Queue α) [⟨0, 0⟩] [] :=
  ⟨⟨[], Memory.init data⟩, ⟨fun _ => 0, Pointers.init data⟩, List.forall_mem_nil _, Counted.init data⟩

theorem Orderly.call (orderly : Orderly s chain groups) (op : Op α) (turn : OneDequeuer s (.call op)) :
    Orderly (s.called op) chain (groups ++ [[]]) := by
  obtain ⟨⟨list, mem⟩, ⟨left, pointers⟩, single, counted⟩ := orderly
  refine ⟨⟨list, mem.call op⟩, ⟨left, pointers.call mem op⟩, fun g member => ?_, counted.call op turn⟩
  rcases List.mem_append.mp member with old | new
  · exact single g old
  · rw [List.mem_singleton.mp new]
    exact Nat.zero_le _

theorem Orderly.thread (orderly : Orderly s chain groups) (at_i : s.threads[i]? = some t) (moved : Moves s i t.op t.pc u pc' r)
    (apart : ∀ new tail, t.pc = .link new tail → s.Next tail.address = none → ∀ g ∈ groups, ∀ p ∈ g, p.address ≠ tail.address)
    (fits : t.pc.counts = true → s.mCount + 1 < 2 ^ 32) : ∃ chain' groups', Effect s i t.pc pc' chain groups chain' groups' ∧
      Plain s t.pc pc' chain chain' ∧ Orderly (s.acted u i t.op pc' r) chain' groups' := by
  obtain ⟨⟨list, mem⟩, ⟨left, pointers⟩, single, counted⟩ := orderly
  obtain ⟨chain', groups', list', left', mem', pointers', effect⟩ := pointers.step mem at_i moved
  obtain ⟨plain, single'⟩ := effect.plain single fun new tail here there => by
    rw [here, there] at moved
    cases moved with
    | link _ _ free => exact apart new tail here free
  have counted' := counted.step at_i moved plain fits
  exact ⟨chain', groups', effect, plain, ⟨list', mem'.recorded _⟩, ⟨left', pointers'.recorded _⟩, single',
    ⟨counted'.word, counted'.count, counted'.alone, counted'.pos⟩⟩

end WanNet.LockFreeQueue
