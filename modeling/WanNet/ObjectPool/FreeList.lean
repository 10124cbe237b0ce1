import WanNet.ObjectPool.Model

/-!
`Alloc` and `Free` as a pop and a push on the free list.
-/

namespace WanNet.ObjectPool
open Treiber Threads

def Alloc.part : Alloc → Part
  | .readNext localMyTop => .popping localMyTop
  | .swapTop localMyTop localMyNext => .swapping localMyTop localMyNext
  | .countSize retNode | .done retNode => .owns retNode
  | _ => .idle

def Free.part : Free → Part
  | .takeID node => .owns node
  | .readTop newTop | .writeNext newTop _ => .pushing newTop
  | .swapTop newTop localMyTop => .linked newTop localMyTop
  | _ => .idle

def made (p : Pool) (a : Nat) : Nat := if a < p.created then 1 else 0

theorem made_le_one (p : Pool) (a : Nat) : made p a ≤ 1 := by
  unfold made
  split <;> decide

/-- Past the CAS, with `mSize` still to be counted. -/
def Alloc.uncounted : Alloc → Nat
  | .countSize _ => 1
  | _ => 0

def Free.uncounted : Free → Nat
  | .countSize => 1
  | _ => 0

def issued (tag : Nat → Nat) (mID t : Nat) : Prop := ∃ n ≤ mID, tag n = t

variable {tag : Nat → Nat} {p : Pool} {parts : List Part} {list : List Ptr} {i : Nat}

/-- What a step does to the free list: it stays in order, no node gains an owner except a new one, and
`mSize` follows. -/
structure Steps (p p' : Pool) (parts : List Part) (list : List Ptr) (i : Nat) (part : Part) (up down : Nat) (list' : List Ptr) : Prop where
  ordered : Ordered p'.mTop p'.Next (parts.set i part) list'
  owned : ∀ a, owners list' (parts.set i part) a + made p a = owners list parts a + made p' a
  size : (p'.mSize + list.length + up) % 2 ^ 32 = (p.mSize + list'.length + down) % 2 ^ 32

theorem Steps.still {p' : Pool} {x y : Part} {up down : Nat} (ord : Ordered p.mTop p.Next parts list)
    (one : ∀ a, owners list parts a ≤ made p a) (at_i : parts[i]? = some x) (same : p'.mTop = p.mTop ∧ p'.created = p.created)
    (node : y.node = x.node) (others : ∀ a, x.node ≠ some a → p'.Next a = p.Next a)
    (written : ∀ new old, y = .linked new old → p'.Next new.address = old)
    (size : (p'.mSize + up) % 2 ^ 32 = (p.mSize + down) % 2 ^ 32) : Steps p p' parts list i y up down list := by
  obtain ⟨top, created⟩ := same
  refine ⟨?_, fun a => ?_, by omega⟩
  · rw [top]
    exact ord.frame (fun a => Nat.le_trans (one a) (made_le_one p a)) at_i others written
  · have moved := owners_set list a at_i y
    rw [holds_congr node] at moved
    have : made p' a = made p a := by simp [made, created]
    omega

theorem Steps.counts {x y : Part} {up down counted : Nat} (ord : Ordered p.mTop p.Next parts list)
    (one : ∀ a, owners list parts a ≤ made p a) (at_i : parts[i]? = some x) (node : y.node = x.node)
    (quiet : x.new = none ∧ y.new = none ∧ y.top = none) (size : (counted + up) % 2 ^ 32 = (p.mSize + down) % 2 ^ 32) :
    Steps p { p with mSize := counted } parts list i y up down list ∧
      (Tagged (issued tag p.mID) p.Next parts list →
        Tagged (issued tag { p with mSize := counted }.mID) { p with mSize := counted }.Next (parts.set i y) list) := by
  obtain ⟨no_new, new, top⟩ := quiet
  refine ⟨.still ord one at_i ⟨rfl, rfl⟩ node (fun _ _ => rfl) (fun n old is => ?_) size,
    fun tagged => tagged.frame at_i (by rw [no_new, new]) (fun _ => id) (fun _ _ => rfl) (by simp [top]) fun n old is => ?_⟩
  · rw [is] at new
    cases new
  · rw [is] at top
    cases top

/-- A CAS that finds a top which nobody has put on the list since installs its successor. -/
theorem current_of_tagged {is : Nat → Prop} {pc : Alloc} (ord : Ordered p.mTop p.Next parts list) (tagged : Tagged is p.Next parts list)
    (at_i : parts[i]? = some pc.part) : ∀ top following, pc = .swapTop top following → p.mTop = some top →
      p.Next top.address = following := by
  rintro top following rfl here
  refine tagged.knows top following (List.mem_of_getElem? at_i) (List.mem_of_mem_head? ?_)
  exact ord.path.head.symm.trans here

/-- One step of `Alloc`, which swaps the top for its current successor or not at all. -/
theorem alloc_steps (tag : Nat → Nat) (ord : Ordered p.mTop p.Next parts list) (one : ∀ a, owners list parts a ≤ made p a)
    (at_i : parts[i]? = some pc.part)
    (current : ∀ top following, pc = .swapTop top following → p.mTop = some top → p.Next top.address = following) :
    ∃ list', Steps p (alloc p pc).1 parts list i (alloc p pc).2.part pc.uncounted (alloc p pc).2.uncounted list' ∧
      (Tagged (issued tag p.mID) p.Next parts list →
        Tagged (issued tag (alloc p pc).1.mID) (alloc p pc).1.Next (parts.set i (alloc p pc).2.part) list') := by
  cases pc with
  | readTop =>
    refine ⟨list, ?_⟩
    cases top : p.mTop with
    | none =>
      simp only [alloc, top]
      exact ⟨.still ord one at_i ⟨rfl, rfl⟩ rfl (fun _ _ => rfl) nofun rfl,
        fun tagged => tagged.frame at_i rfl (fun _ => id) (fun _ _ => rfl) nofun nofun⟩
    | some ptr =>
      simp only [alloc, top]
      refine ⟨.still ord one at_i ⟨rfl, rfl⟩ rfl (fun _ _ => rfl) nofun rfl,
        fun tagged => tagged.frame at_i rfl (fun _ => id) (fun _ _ => rfl) (fun read is => ?_) nofun⟩
      obtain rfl : ptr = read := Option.some.inj is
      exact tagged.spent ptr (List.mem_of_mem_head? (ord.path.head.symm.trans top))
  | countCapacity =>
    simp only [alloc]
    exact ⟨list, .still ord one at_i ⟨rfl, rfl⟩ rfl (fun _ _ => rfl) nofun rfl,
      fun tagged => tagged.frame at_i rfl (fun _ => id) (fun _ _ => rfl) nofun nofun⟩
  | create =>
    simp only [alloc]
    have unmade : made p p.created = 0 := if_neg (Nat.lt_irrefl _)
    have nobody : owners list parts p.created = 0 := by
      have := one p.created
      omega
    refine ⟨list, ⟨ord.create nobody (fun b other => if_neg other) _ rfl, fun a => ?_, rfl⟩,
      fun tagged => tagged.frame at_i rfl (fun _ => id) (fun ptr member => if_neg fun same => ?_) nofun nofun⟩
    · have moved := owners_set list a at_i (.owns p.created)
      have : holds a (Alloc.part .create) = 0 := rfl
      have : holds a (.owns p.created) = if p.created = a then 1 else 0 := by simp [holds, Part.node]
      show owners list (parts.set i (.owns p.created)) a + (if a < p.created then 1 else 0) =
        owners list parts a + if a < p.created + 1 then 1 else 0
      split <;> split <;> split at this <;> omega
    · have := owners_of_mem parts member
      rw [same] at this
      omega
  | readNext top =>
    refine ⟨list, .still ord one at_i ⟨rfl, rfl⟩ rfl (fun _ _ => rfl) nofun rfl, fun tagged => ?_⟩
    have read := tagged.tops _ (List.mem_of_getElem? at_i)
    refine tagged.frame at_i rfl (fun _ => id) (fun _ _ => rfl) read ?_
    rintro _ _ ⟨⟩ -
    rfl
  | swapTop top following =>
    simp only [alloc]
    split
    next here =>
      have successor := current top following rfl here
      rw [here] at ord
      obtain ⟨rest, rfl, popped⟩ := ord.pop (i := i) (y := .owns top.address) rfl
      refine ⟨rest, ⟨by rw [successor] at popped; exact popped, fun a => ?_, ?_⟩,
        fun tagged => tagged.frame at_i rfl (fun _ => .tail _) (fun _ _ => rfl) nofun nofun⟩
      · have moved := owners_set rest a at_i (.owns top.address)
        have : holds a (Alloc.part (.swapTop top following)) = 0 := rfl
        have : holds a (.owns top.address) = if top.address = a then 1 else 0 := by simp [holds, Part.node]
        have listed := owners_cons top rest parts a
        show owners rest (parts.set i (.owns top.address)) a + made p a = owners (top :: rest) parts a + made p a
        omega
      · show (p.mSize + (rest.length + 1) + 0) % 2 ^ 32 = (p.mSize + rest.length + 1) % 2 ^ 32
        omega
    next =>
      exact ⟨list, .still ord one at_i ⟨rfl, rfl⟩ rfl (fun _ _ => rfl) nofun rfl,
        fun tagged => tagged.frame at_i rfl (fun _ => id) (fun _ _ => rfl) nofun nofun⟩
  | countSize node =>
    have stepped : alloc p (.countSize node) = ({ p with mSize := dec32 p.mSize }, .done node) := rfl
    rw [stepped]
    refine ⟨list, Steps.counts ord one at_i rfl ⟨rfl, rfl, rfl⟩ ?_⟩
    show (dec32 p.mSize + 1) % 2 ^ 32 = (p.mSize + 0) % 2 ^ 32
    unfold dec32
    omega
  | done node =>
    exact ⟨list, .still ord one at_i ⟨rfl, rfl⟩ rfl (fun _ _ => rfl) nofun rfl,
      fun tagged => tagged.frame at_i rfl (fun _ => id) (fun _ _ => rfl) nofun nofun⟩

theorem free_steps (tag : Nat → Nat) (ord : Ordered p.mTop p.Next parts list) (one : ∀ a, owners list parts a ≤ made p a)
    (at_i : parts[i]? = some pc.part) :
    ∃ list', Steps p (free tag p pc).1 parts list i (free tag p pc).2.part (free tag p pc).2.uncounted pc.uncounted list' ∧
      (Function.Injective tag → Tagged (issued tag p.mID) p.Next parts list →
        Tagged (issued tag (free tag p pc).1.mID) (free tag p pc).1.Next (parts.set i (free tag p pc).2.part) list') := by
  cases pc with
  | takeID node =>
    refine ⟨list, .still ord one at_i ⟨rfl, rfl⟩ rfl (fun _ _ => rfl) nofun rfl, fun unique tagged => ?_⟩
    refine tagged.take at_i ?_ fun u => ⟨?_, ?_⟩
    · rintro ⟨n, le, same⟩
      have := unique same
      omega
    · rintro ⟨n, le, is⟩
      rcases Nat.lt_or_ge p.mID n with late | old
      · obtain rfl : n = p.mID + 1 := Nat.le_antisymm le late
        exact .inr is.symm
      · exact .inl ⟨n, old, is⟩
    · rintro (⟨n, le, is⟩ | rfl)
      · exact ⟨n, Nat.le_succ_of_le le, is⟩
      · exact ⟨_, Nat.le_refl _, rfl⟩
  | readTop new =>
    exact ⟨list, .still ord one at_i ⟨rfl, rfl⟩ rfl (fun _ _ => rfl) nofun rfl,
      fun _ tagged => tagged.frame at_i rfl (fun _ => id) (fun _ _ => rfl) nofun nofun⟩
  | writeNext new top =>
    have others (a : Nat) (other : (Free.part (.writeNext new top)).node ≠ some a) :
        (free tag p (.writeNext new top)).1.Next a = p.Next a := if_neg fun same => other (by rw [same]; rfl)
    refine ⟨list, .still ord one at_i ⟨rfl, rfl⟩ rfl others ?_ rfl, fun _ tagged => ?_⟩
    · rintro _ _ ⟨⟩
      exact if_pos rfl
    · refine tagged.frame at_i rfl (fun _ => id) (fun ptr member => others _ fun own => ?_) nofun nofun
      exact (apart (Nat.le_trans (one _) (made_le_one p _)) at_i own).1 ptr member rfl
  | swapTop new top =>
    simp only [free]
    split
    next here =>
      subst here
      refine ⟨new :: list, ⟨ord.push at_i rfl, fun a => ?_, ?_⟩, fun _ tagged => tagged.push at_i⟩
      · have moved := owners_set (new :: list) a at_i .idle
        have : holds a .idle = 0 := rfl
        have : holds a (Free.part (.swapTop new p.mTop)) = if new.address = a then 1 else 0 := by
          simp [holds, Free.part, Part.node]
        have listed := owners_cons new list parts a
        show owners (new :: list) (parts.set i .idle) a + made p a = owners list parts a + made p a
        omega
      · show (p.mSize + list.length + 1) % 2 ^ 32 = (p.mSize + (list.length + 1) + 0) % 2 ^ 32
        omega
    next =>
      exact ⟨list, .still ord one at_i ⟨rfl, rfl⟩ rfl (fun _ _ => rfl) nofun rfl,
        fun _ tagged => tagged.frame at_i rfl (fun _ => id) (fun _ _ => rfl) nofun nofun⟩
  | countSize =>
    have stepped : free tag p .countSize = ({ p with mSize := inc32 p.mSize }, .done) := rfl
    rw [stepped]
    have size : (inc32 p.mSize + 0) % 2 ^ 32 = (p.mSize + 1) % 2 ^ 32 := by
      unfold inc32
      omega
    obtain ⟨steps, tagged⟩ := Steps.counts (y := .idle) ord one at_i rfl ⟨rfl, rfl, rfl⟩ size
    exact ⟨list, steps, fun _ => tagged⟩
  | done =>
    exact ⟨list, .still ord one at_i ⟨rfl, rfl⟩ rfl (fun _ _ => rfl) nofun rfl,
      fun _ tagged => tagged.frame at_i rfl (fun _ => id) (fun _ _ => rfl) nofun nofun⟩

end WanNet.ObjectPool
