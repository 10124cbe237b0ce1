import WanNet.LockFreeStack.Model
import WanNet.ObjectPool.FreeList

/-!
The nodes of a `LockFreeStack`: each is on the stack, on the free list of `mNodePool`, or in the hands
of one thread.
-/

namespace WanNet.LockFreeStack
open Transition Treiber ObjectPool Threads

variable {α : Type}

/-- Where a call stands with `mTop`, and where with the pool's. -/
def Pc.part : Pc α → Part
  | .writeData newNode | .takeID newNode => .owns newNode
  | .readTop newTop | .writeNext newTop _ => .pushing newTop
  | .swapTop newTop localMyTop => .linked newTop localMyTop
  | .readNext localMyTop => .popping localMyTop
  | .swapTopToPop localMyTop localMyNext => .swapping localMyTop localMyNext
  | .uncount localMyPureTop | .readData localMyPureTop => .owns localMyPureTop
  | _ => .idle

def Pc.poolPart : Pc α → Part
  | .alloc pc => pc.part
  | .free pc _ => pc.part
  | _ => .idle

/-- Past the CAS, with `mCount` still to be changed. -/
def Pc.pushed : Pc α → Nat
  | .count => 1
  | _ => 0

def Pc.popped : Pc α → Nat
  | .uncount _ => 1
  | _ => 0

def Stack.parts (s : Stack α) : List Part := s.threads.map fun t => t.pc.part

def Stack.poolParts (s : Stack α) : List Part := s.threads.map fun t => t.pc.poolPart

structure Memory (s : Stack α) (nodes list : List Ptr) : Prop where
  ordered : Ordered s.mTop s.Next s.parts nodes
  tagged : Tagged (issued id s.mID) s.Next s.parts nodes
  pool : Ordered s.mNodePool.mTop s.mNodePool.Next s.poolParts list
  poolTagged : Tagged (issued id s.mNodePool.mID) s.mNodePool.Next s.poolParts list
  owned : ∀ a, owners nodes s.parts a + owners list s.poolParts a = made s.mNodePool a
  count : (s.mCount + total (fun t => t.pc.pushed) s.threads) % 2 ^ 32 =
    (nodes.length + total (fun t => t.pc.popped) s.threads) % 2 ^ 32
  word : s.mCount < 2 ^ 32

/-- What a step does to the stack: nothing, or the push or the pop of a CAS. -/
inductive Effect (s : Stack α) (pc : Pc α) (pc' : Pc α) (nodes : List Ptr) : List Ptr → Prop where
  | none (quiet : (∀ new, pc ≠ .swapTop new s.mTop) ∧ ∀ top following, pc = .swapTopToPop top following → s.mTop ≠ some top) :
    Effect s pc pc' nodes nodes
  | push (new : Ptr) (here : pc = .swapTop new s.mTop) (there : pc' = .count) : Effect s pc pc' nodes (new :: nodes)
  | pop (top : Ptr) (following : Option Ptr) (rest : List Ptr) (is : nodes = top :: rest)
    (here : pc = .swapTopToPop top following) (there : pc' = .uncount top.address) : Effect s pc pc' nodes rest

variable {s u : Stack α} {nodes nodes' list list' : List Ptr} {t : Thread α} {pc' : Pc α} {i : Nat}

abbrev Stack.moved (s u : Stack α) (i : Nat) (op : Op α) (pc : Pc α) : Stack α :=
  { u with threads := s.threads.set i ⟨op, pc⟩ }

theorem Memory.at_part (at_i : s.threads[i]? = some t) : s.parts[i]? = some t.pc.part ∧ s.poolParts[i]? = some t.pc.poolPart := by
  simp [Stack.parts, Stack.poolParts, at_i]

theorem parts_moved (s u : Stack α) (i : Nat) (op : Op α) (pc' : Pc α) :
    (s.moved u i op pc').parts = s.parts.set i pc'.part ∧
    (s.moved u i op pc').poolParts = s.poolParts.set i pc'.poolPart :=
  ⟨List.map_set, List.map_set⟩

theorem Memory.count_moved (mem : Memory s nodes list) (at_i : s.threads[i]? = some t)
    (size : (u.mCount + nodes.length + pc'.pushed + t.pc.popped) % 2 ^ 32 =
      (s.mCount + nodes'.length + t.pc.pushed + pc'.popped) % 2 ^ 32) :
    (u.mCount + total (fun t => t.pc.pushed) (s.threads.set i ⟨t.op, pc'⟩)) % 2 ^ 32 =
      (nodes'.length + total (fun t => t.pc.popped) (s.threads.set i ⟨t.op, pc'⟩)) % 2 ^ 32 := by
  have pushed := total_set (w := fun t : Thread α => t.pc.pushed) (b := ⟨t.op, pc'⟩) at_i
  have popped := total_set (w := fun t : Thread α => t.pc.popped) (b := ⟨t.op, pc'⟩) at_i
  have := mem.count
  simp only at pushed popped
  omega

theorem Memory.one (mem : Memory s nodes list) (a : Nat) :
    owners nodes s.parts a ≤ 1 ∧ owners list s.poolParts a ≤ made s.mNodePool a := by
  have := mem.owned a
  have := made_le_one s.mNodePool a
  omega

theorem Memory.move (mem : Memory s nodes list) (at_i : s.threads[i]? = some t)
    (ordered : Ordered u.mTop u.Next (s.parts.set i pc'.part) nodes')
    (tagged : Tagged (issued id u.mID) u.Next (s.parts.set i pc'.part) nodes')
    (pool : Ordered u.mNodePool.mTop u.mNodePool.Next (s.poolParts.set i pc'.poolPart) list')
    (poolTagged : Tagged (issued id u.mNodePool.mID) u.mNodePool.Next (s.poolParts.set i pc'.poolPart) list')
    (owned : ∀ a, owners nodes' (s.parts.set i pc'.part) a + owners list' (s.poolParts.set i pc'.poolPart) a = made u.mNodePool a)
    (size : (u.mCount + nodes.length + pc'.pushed + t.pc.popped) % 2 ^ 32 =
      (s.mCount + nodes'.length + t.pc.pushed + pc'.popped) % 2 ^ 32)
    (word : u.mCount < 2 ^ 32) : Memory (s.moved u i t.op pc') nodes' list' := by
  obtain ⟨parts, poolParts⟩ := parts_moved s u i t.op pc'
  refine ⟨?_, ?_, ?_, ?_, fun a => ?_, mem.count_moved at_i size, word⟩
  · rw [parts]
    exact ordered
  · rw [parts]
    exact tagged
  · rw [poolParts]
    exact pool
  · rw [poolParts]
    exact poolTagged
  · rw [parts, poolParts]
    exact owned a

/-- A step at `mTop` that moves no node on or off the stack. -/
theorem Memory.still (mem : Memory s nodes list) (at_i : s.threads[i]? = some t)
    (same : u.mTop = s.mTop ∧ u.mID = s.mID ∧ u.mNodePool = s.mNodePool) (idle : t.pc.poolPart = .idle ∧ pc'.poolPart = .idle)
    (node : pc'.part.node = t.pc.part.node) (others : ∀ a, t.pc.part.node ≠ some a → u.Next a = s.Next a)
    (written : ∀ new old, pc'.part = .linked new old → u.Next new.address = old)
    (new : pc'.part.new.map Ptr.tag = t.pc.part.new.map Ptr.tag)
    (top : ∀ ptr ∈ pc'.part.top, Spent (issued id s.mID) s.parts ptr.tag)
    (knows : ∀ top following, pc'.part = .swapping top following → u.Next top.address = following)
    (size : (u.mCount + pc'.pushed + t.pc.popped) % 2 ^ 32 = (s.mCount + t.pc.pushed + pc'.popped) % 2 ^ 32)
    (word : u.mCount < 2 ^ 32) : Memory (s.moved u i t.op pc') nodes list := by
  obtain ⟨mTop, mID, mNodePool⟩ := same
  obtain ⟨at_part, at_pool⟩ := Memory.at_part at_i
  have away : s.poolParts.set i pc'.poolPart = s.poolParts := by rw [idle.2, ← idle.1, set_same at_pool]
  have apart {ptr : Ptr} (member : ptr ∈ nodes) : u.Next ptr.address = s.Next ptr.address :=
    others _ fun own => (Treiber.apart (mem.one _).1 at_part own).1 ptr member rfl
  refine mem.move at_i ?_ ?_ ?_ ?_ (fun a => ?_) (by omega) word
  · rw [mTop]
    exact mem.ordered.frame (fun a => (mem.one a).1) at_part others written
  · rw [mID]
    exact mem.tagged.frame at_part new (fun _ => id) (fun _ => apart) top fun top following is _ => knows top following is
  · rw [away, mNodePool]
    exact mem.pool
  · rw [away, mNodePool]
    exact mem.poolTagged
  · have moved := owners_set nodes a at_part pc'.part
    rw [holds_congr node] at moved
    have := mem.owned a
    rw [away, mNodePool]
    omega

/-- A step of `Alloc` or `Free`, which may hand its node over. -/
theorem Memory.pool_step {pool : Pool} {part : Part} {up down : Nat} (mem : Memory s nodes list) (at_i : s.threads[i]? = some t)
    (steps : Steps s.mNodePool pool s.poolParts list i part up down list')
    (tagged : Tagged (issued id pool.mID) pool.Next (s.poolParts.set i part) list') (idle : t.pc.part = .idle)
    (counts : t.pc.pushed = 0 ∧ t.pc.popped = 0 ∧ pc'.pushed = 0 ∧ pc'.popped = 0)
    (same : pc'.poolPart = part ∧ pc'.part = .idle ∨ part.new = none ∧ pc'.poolPart = .idle ∧ pc'.part.new = none ∧
      pc'.part.top = none ∧ part.node = pc'.part.node) :
    Memory (s.moved { s with mNodePool := pool } i t.op pc') nodes list' := by
  obtain ⟨at_part, at_pool⟩ := Memory.at_part at_i
  obtain ⟨pushed, popped, pushed', popped'⟩ := counts
  have lt := (List.getElem?_eq_some_iff.mp at_pool).1
  have owned (a : Nat) : owners nodes s.parts a + owners list' (s.poolParts.set i part) a = made pool a := by
    have := mem.owned a
    have := steps.owned a
    omega
  have size : (s.mCount + nodes.length + pc'.pushed + t.pc.popped) % 2 ^ 32 =
      (s.mCount + nodes.length + t.pc.pushed + pc'.popped) % 2 ^ 32 := by
    rw [pushed, popped, pushed', popped']
  rcases same with ⟨poolPart, part'⟩ | ⟨without, poolPart, new, top, node⟩
  · have away : s.parts.set i pc'.part = s.parts := by rw [part', ← idle, set_same at_part]
    refine mem.move at_i ?_ ?_ ?_ ?_ (fun a => ?_) size mem.word
    · rw [away]
      exact mem.ordered
    · rw [away]
      exact mem.tagged
    · rw [poolPart]
      exact steps.ordered
    · rw [poolPart]
      exact tagged
    · rw [away, poolPart]
      exact owned a
  · have twice : s.poolParts.set i pc'.poolPart = (s.poolParts.set i part).set i .idle := by rw [poolPart, List.set_set]
    have at_part' : (s.poolParts.set i part)[i]? = some part := List.getElem?_set_self lt
    refine mem.move at_i (mem.ordered.release _ new) (mem.tagged.release at_part (by rw [idle]; rfl) _ ⟨new, top⟩) ?_ ?_
      (fun a => ?_) size mem.word
    · rw [twice]
      exact steps.ordered.release _ rfl
    · rw [twice]
      exact tagged.release at_part' without _ ⟨rfl, rfl⟩
    · have moved := owners_set nodes a at_part pc'.part
      have given := owners_set list' a at_part' .idle
      have := owned a
      have : holds a Part.idle = 0 := rfl
      rw [holds_congr node, idle] at *
      rw [twice]
      show _ = made pool a
      omega

theorem Memory.alloc (mem : Memory s nodes list) (at_i : s.threads[i]? = some t) (here : t.pc = .alloc pc)
    (moved : Moves s t.op (.alloc pc) u pc' r) : ∃ list', Memory (s.moved u i t.op pc') nodes list' := by
  obtain ⟨at_part, at_pool⟩ := Memory.at_part at_i
  have at_pool : s.poolParts[i]? = some pc.part := by rw [at_pool, here]; rfl
  have one (a : Nat) := (mem.one a).2
  obtain ⟨list', steps, tagged⟩ := alloc_steps id mem.pool one at_pool
    (current_of_tagged mem.pool mem.poolTagged at_pool)
  refine ⟨list', ?_⟩
  cases moved with
  | allocated _ newNode pool is =>
    rw [is] at steps tagged
    exact mem.pool_step at_i steps (tagged mem.poolTagged) (by rw [here]; rfl) ⟨by rw [here]; rfl, by rw [here]; rfl, rfl, rfl⟩
      (.inr ⟨rfl, rfl, rfl, rfl, rfl⟩)
  | alloc _ pc'' pool is =>
    rw [is] at steps tagged
    exact mem.pool_step at_i steps (tagged mem.poolTagged) (by rw [here]; rfl) ⟨by rw [here]; rfl, by rw [here]; rfl, rfl, rfl⟩
      (.inl ⟨rfl, rfl⟩)

theorem Memory.free (mem : Memory s nodes list) (at_i : s.threads[i]? = some t) (here : t.pc = .free pc outData)
    (moved : Moves s t.op (.free pc outData) u pc' r) : ∃ list', Memory (s.moved u i t.op pc') nodes list' := by
  obtain ⟨at_part, at_pool⟩ := Memory.at_part at_i
  have at_pool : s.poolParts[i]? = some pc.part := by rw [at_pool, here]; rfl
  have one (a : Nat) := (mem.one a).2
  obtain ⟨list', steps, tagged⟩ := free_steps id mem.pool one at_pool
  have tagged := tagged Function.injective_id mem.poolTagged
  refine ⟨list', ?_⟩
  cases moved with
  | freed _ _ pool is | free _ _ _ pool is =>
    rw [is] at steps tagged
    exact mem.pool_step at_i steps tagged (by rw [here]; rfl) ⟨by rw [here]; rfl, by rw [here]; rfl, rfl, rfl⟩ (.inl ⟨rfl, rfl⟩)

/-- The node popped goes to `Free`. -/
theorem Memory.give (mem : Memory s nodes list) (at_i : s.threads[i]? = some t) (here : t.pc = .readData node) :
    Memory (s.moved s i t.op (.free (.takeID node) (s.Data node))) nodes list := by
  obtain ⟨at_part, at_pool⟩ := Memory.at_part at_i
  rw [here] at at_part at_pool
  refine mem.move at_i (mem.ordered.release _ rfl) (mem.tagged.release at_part rfl _ ⟨rfl, rfl⟩)
    (mem.pool.release _ rfl) (mem.poolTagged.release at_pool rfl _ ⟨rfl, rfl⟩) (fun a => ?_) (by rw [here]; rfl) mem.word
  have kept := owners_set nodes a at_part .idle
  have given := owners_set list a at_pool (.owns node)
  have := mem.owned a
  have : holds a Part.idle = 0 := rfl
  have : holds a (.readData node : Pc α).part = holds a (.owns node) := rfl
  have : holds a (.readData node : Pc α).poolPart = 0 := rfl
  show owners nodes (s.parts.set i .idle) a + owners list (s.poolParts.set i (.owns node)) a = made s.mNodePool a
  omega

theorem Memory.takeID (mem : Memory s nodes list) (at_i : s.threads[i]? = some t) (here : t.pc = .takeID node) :
    Memory (s.moved { s with mID := s.mID + 1 } i t.op (.readTop ⟨node, s.mID + 1⟩)) nodes list := by
  obtain ⟨at_part, at_pool⟩ := Memory.at_part at_i
  rw [here] at at_part at_pool
  have away : s.poolParts.set i .idle = s.poolParts := set_same at_pool
  refine mem.move at_i ?_ ?_ ?_ ?_ (fun a => ?_) (by rw [here]; rfl) mem.word
  · exact mem.ordered.frame (fun a => (mem.one a).1) at_part (fun _ _ => rfl) nofun
  · refine mem.tagged.take at_part ?_ fun u => ⟨?_, ?_⟩
    · rintro ⟨n, le, same⟩
      simp only [id] at same
      omega
    · rintro ⟨n, le, is⟩
      have le : n ≤ s.mID + 1 := le
      simp only [id] at is
      rcases Nat.lt_or_ge s.mID n with late | old
      · exact .inr (by omega)
      · exact .inl ⟨n, old, is⟩
    · rintro (⟨n, le, is⟩ | rfl)
      · exact ⟨n, Nat.le_succ_of_le le, is⟩
      · exact ⟨_, Nat.le_refl _, rfl⟩
  · show Ordered _ _ (s.poolParts.set i .idle) _
    rw [away]
    exact mem.pool
  · show Tagged _ _ (s.poolParts.set i .idle) _
    rw [away]
    exact mem.poolTagged
  · have moved := owners_set nodes a at_part (.pushing ⟨node, s.mID + 1⟩)
    have : holds a (.takeID node : Pc α).part = holds a (.pushing ⟨node, s.mID + 1⟩) := rfl
    have := mem.owned a
    show owners nodes (s.parts.set i (.pushing ⟨node, s.mID + 1⟩)) a + owners list (s.poolParts.set i .idle) a = made s.mNodePool a
    rw [away]
    omega

theorem Memory.push (mem : Memory s nodes list) (at_i : s.threads[i]? = some t) (here : t.pc = .swapTop new s.mTop) :
    Memory (s.moved { s with mTop := some new } i t.op .count) (new :: nodes) list := by
  obtain ⟨at_part, at_pool⟩ := Memory.at_part at_i
  rw [here] at at_part at_pool
  have away : s.poolParts.set i .idle = s.poolParts := set_same at_pool
  refine mem.move at_i (mem.ordered.push at_part rfl) (mem.tagged.push at_part) ?_ ?_ (fun a => ?_) ?_ mem.word
  · show Ordered _ _ (s.poolParts.set i .idle) _
    rw [away]
    exact mem.pool
  · show Tagged _ _ (s.poolParts.set i .idle) _
    rw [away]
    exact mem.poolTagged
  · have moved := owners_set (new :: nodes) a at_part .idle
    have : holds a Part.idle = 0 := rfl
    have : holds a (.swapTop new s.mTop : Pc α).part = if new.address = a then 1 else 0 := by simp [holds, Pc.part, Part.node]
    have listed := owners_cons new nodes s.parts a
    have := mem.owned a
    show owners (new :: nodes) (s.parts.set i .idle) a + owners list (s.poolParts.set i .idle) a = made s.mNodePool a
    rw [away]
    omega
  · rw [here]
    show (s.mCount + nodes.length + 1 + 0) % 2 ^ 32 = (s.mCount + (nodes.length + 1) + 0 + 0) % 2 ^ 32
    omega

theorem Memory.pop (mem : Memory s nodes list) (at_i : s.threads[i]? = some t) (here : t.pc = .swapTopToPop top following)
    (is : s.mTop = some top) : ∃ rest, nodes = top :: rest ∧
      Memory (s.moved { s with mTop := following } i t.op (.uncount top.address)) rest list := by
  obtain ⟨at_part, at_pool⟩ := Memory.at_part at_i
  rw [here] at at_part at_pool
  have away : s.poolParts.set i .idle = s.poolParts := set_same at_pool
  have ord := mem.ordered
  rw [is] at ord
  obtain ⟨rest, rfl, popped⟩ := ord.pop (i := i) (y := .owns top.address) rfl
  have successor := mem.tagged.knows top following (List.mem_of_getElem? at_part) (.head _)
  rw [successor] at popped
  refine ⟨rest, rfl, mem.move at_i popped
    (mem.tagged.frame at_part rfl (fun _ => .tail _) (fun _ _ => rfl) nofun nofun) ?_ ?_ (fun a => ?_) ?_ mem.word⟩
  · show Ordered _ _ (s.poolParts.set i .idle) _
    rw [away]
    exact mem.pool
  · show Tagged _ _ (s.poolParts.set i .idle) _
    rw [away]
    exact mem.poolTagged
  · have moved := owners_set rest a at_part (.owns top.address)
    have : holds a (.owns top.address) = if top.address = a then 1 else 0 := by simp [holds, Part.node]
    have : holds a (.swapTopToPop top following : Pc α).part = 0 := rfl
    have listed := owners_cons top rest s.parts a
    have := mem.owned a
    show owners rest (s.parts.set i (.owns top.address)) a + owners list (s.poolParts.set i .idle) a = made s.mNodePool a
    rw [away]
    omega
  · rw [here]
    show (s.mCount + (rest.length + 1) + 0 + 0) % 2 ^ 32 = (s.mCount + rest.length + 0 + 1) % 2 ^ 32
    omega

theorem Memory.step (mem : Memory s nodes list) (at_i : s.threads[i]? = some t) (moved : Moves s t.op t.pc u pc' r) :
    ∃ nodes' list', Memory (s.moved u i t.op pc') nodes' list' ∧ Effect s t.pc pc' nodes nodes' := by
  obtain ⟨at_part, at_pool⟩ := Memory.at_part at_i
  obtain ⟨op, pc⟩ := t
  cases moved with
  | alloc pc pc'' pool is =>
    obtain ⟨list', mem⟩ := mem.alloc at_i rfl (.alloc pc pc'' pool is)
    exact ⟨nodes, list', mem, .none ⟨nofun, nofun⟩⟩
  | allocated pc newNode pool is =>
    obtain ⟨list', mem⟩ := mem.alloc at_i rfl (.allocated pc newNode pool is)
    exact ⟨nodes, list', mem, .none ⟨nofun, nofun⟩⟩
  | free pc pc'' outData pool is =>
    obtain ⟨list', mem⟩ := mem.free at_i rfl (.free pc pc'' outData pool is)
    exact ⟨nodes, list', mem, .none ⟨nofun, nofun⟩⟩
  | freed pc outData pool is =>
    obtain ⟨list', mem⟩ := mem.free at_i rfl (.freed pc outData pool is)
    exact ⟨nodes, list', mem, .none ⟨nofun, nofun⟩⟩
  | writeData | readTop | popsNone =>
    exact ⟨nodes, list, mem.still at_i ⟨rfl, rfl, rfl⟩ ⟨rfl, rfl⟩ rfl (fun _ _ => rfl) nofun rfl nofun nofun rfl mem.word,
      .none ⟨nofun, nofun⟩⟩
  | takeID node => exact ⟨nodes, list, mem.takeID at_i rfl, .none ⟨nofun, nofun⟩⟩
  | writeNext new top =>
    refine ⟨nodes, list, mem.still at_i ⟨rfl, rfl, rfl⟩ ⟨rfl, rfl⟩ rfl (fun a other => if_neg fun same => other ?_) ?_ rfl nofun
      nofun rfl mem.word, .none ⟨nofun, nofun⟩⟩
    · rw [same]
      rfl
    · rintro _ _ ⟨⟩
      exact if_pos rfl
  | swapTop new => exact ⟨_, list, mem.push at_i rfl, .push new rfl rfl⟩
  | swapTopFails new top other =>
    refine ⟨nodes, list, mem.still at_i ⟨rfl, rfl, rfl⟩ ⟨rfl, rfl⟩ rfl (fun _ _ => rfl) nofun rfl nofun nofun rfl mem.word,
      .none ⟨fun new' same => other ?_, nofun⟩⟩
    cases same
    rfl
  | count =>
    refine ⟨nodes, list, mem.still at_i ⟨rfl, rfl, rfl⟩ ⟨rfl, rfl⟩ rfl (fun _ _ => rfl) nofun rfl nofun nofun ?_ (inc32_lt _),
      .none ⟨nofun, nofun⟩⟩
    show (inc32 s.mCount + 0 + 0) % 2 ^ 32 = (s.mCount + 1 + 0) % 2 ^ 32
    unfold inc32
    omega
  | readTopToPop top here =>
    refine ⟨nodes, list, mem.still at_i ⟨rfl, rfl, rfl⟩ ⟨rfl, rfl⟩ rfl (fun _ _ => rfl) nofun rfl (fun ptr is => ?_) nofun rfl mem.word,
      .none ⟨nofun, nofun⟩⟩
    obtain rfl : top = ptr := Option.some.inj is
    exact mem.tagged.spent top (List.mem_of_mem_head? (mem.ordered.path.head.symm.trans here))
  | readNext top =>
    have read := mem.tagged.tops _ (List.mem_of_getElem? at_part)
    refine ⟨nodes, list, mem.still at_i ⟨rfl, rfl, rfl⟩ ⟨rfl, rfl⟩ rfl (fun _ _ => rfl) nofun rfl read ?_ rfl mem.word,
      .none ⟨nofun, nofun⟩⟩
    rintro _ _ ⟨⟩
    rfl
  | swapTopToPop top following here =>
    obtain ⟨rest, is, mem⟩ := mem.pop at_i rfl here
    exact ⟨rest, list, mem, .pop top following rest is rfl rfl⟩
  | swapTopToPopFails top following other =>
    refine ⟨nodes, list, mem.still at_i ⟨rfl, rfl, rfl⟩ ⟨rfl, rfl⟩ rfl (fun _ _ => rfl) nofun rfl nofun nofun rfl mem.word,
      .none ⟨nofun, fun top' following' same => ?_⟩⟩
    cases same
    exact other
  | uncount node =>
    refine ⟨nodes, list, mem.still at_i ⟨rfl, rfl, rfl⟩ ⟨rfl, rfl⟩ rfl (fun _ _ => rfl) nofun rfl nofun nofun ?_ (dec32_lt _),
      .none ⟨nofun, nofun⟩⟩
    show (dec32 s.mCount + 0 + 1) % 2 ^ 32 = (s.mCount + 0 + 0) % 2 ^ 32
    unfold dec32
    omega
  | readData node => exact ⟨nodes, list, mem.give at_i rfl, .none ⟨nofun, nofun⟩⟩

end WanNet.LockFreeStack
