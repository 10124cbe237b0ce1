import WanNet.Session.Registration

/-!
The references that a session holds on packets: taken by `SendPacket` and `SendAndDisconnect` before
the `Enqueue`, dropped by the send completion or by the next `Init` of the slot.
-/

namespace WanNet.Session
open Transition Threads ReleaseCount

variable {cfg : Config} {s s' u : Slot} {role : Role} {ans : Answer} {pc pc' : Pc} {t : Thread} {i : Nat}

/-- The packet on which the thread is about to call `IncrementRefCount`. -/
def incremented (t : Thread) : Option Nat :=
  match t.pc, t.role with
  | .callAddRef, .api (.sendPacket packet) _ | .callAddRef, .api (.sendAndDisconnect packet) _ => some packet
  | _, _ => none

/-- The packet on which a thread is about to call `DecrementRefCount`. -/
def decremented (cfg : Config) (s : Slot) : Pc → Option Nat
  | .sendDoneDrop count i => if i < count then some (s.RegisteredPackets i).packet else none
  | .initDrain => if cfg.getCount s.SendQueueCount = 0 then none else s.SendQueue.head?.map Queued.packet
  | .initDropRefs i => if i < s.RegisteredPacketCount then some (s.RegisteredPackets i).packet else none
  | _ => none

/-- The packets in `SendQueue` and in `RegisteredPackets` below `RegisteredPacketCount`. -/
def places (s : Slot) : List Nat := (s.SendQueue ++ registered s).map Queued.packet

/-- References that a thread has in hand: taken and not yet in `SendQueue`, or out of
`RegisteredPackets` and not yet dropped. -/
def inHand (s : Slot) (t : Thread) : List Nat :=
  match t.pc, t.role with
  | .callEnqueue, .api (.sendPacket packet) _ | .callEnqueue, .api (.sendAndDisconnect packet) _ => [packet]
  | .sendDoneDrop count i, _ => (((List.range count).map s.RegisteredPackets).drop i).map Queued.packet
  | _, _ => []

/-- Entries of `RegisteredPackets` whose reference `Init` has dropped before it resets the count. -/
def droppedEarly (s : Slot) : Pc → List Nat
  | .initDropRefs i => ((registered s).take i).map Queued.packet
  | .initRegisteredCount => (registered s).map Queued.packet
  | _ => []

/-- With references in hand: between `IncrementRefCount` and `Enqueue`, or in the loops of the send
completion and of `Init`. -/
def Pc.hasReferences : Pc → Bool
  | .callEnqueue | .sendDoneDrop _ _ | .initDropRefs _ | .initRegisteredCount => true
  | _ => false

theorem empty_handed (rests : t.pc.hasReferences = false) : inHand s t = [] ∧ droppedEarly s t.pc = [] := by
  obtain ⟨role, pc⟩ := t
  cases pc
  all_goals first
    | exact ⟨rfl, rfl⟩
    | simp [Pc.hasReferences] at rests

theorem inHand_aside (aside : finishing t.pc = 0) : inHand u t = inHand s t := by
  obtain ⟨role, pc⟩ := t
  cases pc
  case callEnqueue => rcases role with ⟨_ | _ | _ | _, _⟩ | _ | _ <;> rfl
  all_goals first
    | rfl
    | simp [finishing] at aside

theorem droppedEarly_aside (aside : initialising pc = 0) : droppedEarly s pc = [] := by
  cases pc
  all_goals first
    | rfl
    | simp [initialising, Pc.initialises] at aside

theorem droppedEarly_same (same : registered u = registered s) : droppedEarly u pc = droppedEarly s pc := by
  cases pc <;> simp [droppedEarly, same]

theorem registered_at (within_ : i < s.RegisteredPacketCount) : (registered s)[i]? = some (s.RegisteredPackets i) := by
  simp [registered, within_]

/-- A step moves references; it takes one or drops one only where it says so. -/
theorem next_ledger (p : Nat) (h : next cfg s t.role ans t.pc = some (s', pc')) :
    (places s').count p + (inHand s' ⟨t.role, pc'⟩).count p + (decremented cfg s t.pc).toList.count p + (droppedEarly s t.pc).count p =
      (places s).count p + (inHand s t).count p + (incremented t).toList.count p + (droppedEarly s' pc').count p := by
  obtain ⟨role, pc⟩ := t
  cases next_moves h with
  | callAddRef =>
    rcases role with ⟨_ | _ | _ | _, _⟩ | _ | _ <;> simp [inHand, decremented, incremented, droppedEarly, places]
  | callEnqueueShows packet sessionID sends | callEnqueue packet sessionID sends =>
    have own : inHand s ⟨role, .callEnqueue⟩ = [packet] := by rcases sends with rfl | rfl <;> rfl
    rw [own]
    simp only [inHand, decremented, incremented, droppedEarly, places, registered, List.map_append, List.count_append, List.map_cons,
      List.map_nil, List.count_nil, Option.toList_none]
    omega
  | initDrained none => simp [inHand, decremented, incremented, droppedEarly, places, none]
  | initDrainWaits some_ empty => simp [inHand, decremented, incremented, droppedEarly, places, some_, empty]
  | initDrain packet rest some_ queue =>
    simp [inHand, decremented, incremented, droppedEarly, places, some_, queue, registered, List.count_cons]
  | initDropRefs k within_ =>
    have entry : (registered s)[k]? = some (s.RegisteredPackets k) := registered_at within_
    simp [inHand, decremented, incremented, droppedEarly, places, within_, List.take_add_one, entry]
    omega
  | initDropped k past =>
    have all : (registered s).take k = registered s := List.take_of_length_le (by rw [registered_length]; omega)
    simp [inHand, decremented, incremented, droppedEarly, places, Nat.not_lt.mpr past, all]
  | initRegisteredCount | sendDoneTake => simp [inHand, decremented, incremented, droppedEarly, places, registered]
  | sendDoneDrop count k within_ =>
    have entry : ((List.range count).map s.RegisteredPackets).drop k =
        s.RegisteredPackets k :: ((List.range count).map s.RegisteredPackets).drop (k + 1) := by
      rw [List.drop_eq_getElem_cons (by simpa using within_)]
      simp
    simp only [inHand, decremented, incremented, droppedEarly, if_pos within_, entry, List.map_cons, List.count_cons,
      Option.toList_some, Option.toList_none, List.count_nil]
    omega
  | sendDoneDropped count k past =>
    have none : ((List.range count).map s.RegisteredPackets).drop k = [] := List.drop_of_length_le (by simp; omega)
    simp [inHand, decremented, incremented, droppedEarly, Nat.not_lt.mpr past, none]
  | sendDequeue n wsabuf packet queue more left is =>
    have appended := registered_concat (s := s) (u := { s with
      SendQueue := queue
      SendQueueCount := s.SendQueueCount - 1
      RegisteredPackets := fun i => if i = s.RegisteredPacketCount then packet else s.RegisteredPackets i
      RegisteredPacketCount := s.RegisteredPacketCount + 1 }) packet rfl rfl
    simp only [inHand, decremented, incremented, droppedEarly, places, appended, is, List.map_append, List.map_cons,
      List.map_nil, List.count_append, List.count_cons, List.count_nil, Option.toList_none]
    omega
  | decDecrement again | releasePush again => cases again <;> rfl
  | _ => rfl

theorem next_packets (h : next cfg s role ans pc = some (s', pc')) (off : carrying pc = 0) :
    s'.RegisteredPackets = s.RegisteredPackets := by
  cases next_moves h with
  | sendDequeue => cases off
  | _ => rfl

theorem inHand_same (same : u.RegisteredPackets = s.RegisteredPackets) : inHand u t = inHand s t := by
  unfold inHand
  rw [same]

/-! ### The balance of a slot -/

/-- The references on a packet that the slot accounts for, in its places and in its threads' hands;
and those among them that `Init` has dropped already. -/
def held (p : Nat) (s : Slot) : Nat := (places s).count p + total (fun t => (inHand s t).count p) s.threads

def early (p : Nat) (s : Slot) : Nat := total (fun t : Thread => (droppedEarly s t.pc).count p) s.threads

theorem ledger_move (p : Nat) (sep : Separate cfg s) (reg : Registration s) (at_i : s.threads[i]? = some t)
    (taken : next cfg s t.role ans t.pc = some (u, pc')) :
    held p (s.moved u i t pc') + early p s + (decremented cfg s t.pc).toList.count p =
      held p s + early p (s.moved u i t pc') + (incremented t).toList.count p := by
  have member := List.mem_of_getElem? at_i
  have token := reg.token.2
  unfold holders at token
  have hands : ∀ j x, j ≠ i → s.threads[j]? = some x → (inHand u x).count p = (inHand s x).count p := by
    intro j x apart at_j
    by_cases off : carrying t.pc = 0
    · rw [inHand_same (next_packets taken off)]
    · have carrier := le_weigh (w := carrying) member
      have finisher := le_weigh (w := finishing) (List.mem_of_getElem? at_j)
      rw [inHand_aside (s := s) (by omega)]
  have drops : ∀ j x, j ≠ i → s.threads[j]? = some x → (droppedEarly u x.pc).count p = (droppedEarly s x.pc).count p := by
    intro j x apart at_j
    by_cases idle : initialising x.pc = 0
    · rw [droppedEarly_aside idle, droppedEarly_aside idle]
    · have exclusive := sep.identified.exclusive
      have two := add_le_total (w := fun t : Thread => initialising t.pc) at_i at_j apart
      have acts := le_weigh (w := acting) member
      have holds := holding_le_acting t.pc
      have own := le_weigh (w := initialising) (List.mem_of_getElem? at_j)
      have noinit : t.pc.initialises = false := by
        unfold Exclusive weigh at exclusive
        have none : initialising t.pc = 0 := by omega
        simpa [initialising] using none
      unfold Exclusive at exclusive
      rw [droppedEarly_same (next_aside_of_flag taken noinit (by omega)).1]
  have hands := total_set_congr (b := (⟨t.role, pc'⟩ : Thread)) at_i hands
  have drops := total_set_congr (b := (⟨t.role, pc'⟩ : Thread)) at_i drops
  have step := next_ledger p taken
  simp only at drops
  unfold held early
  show (places u).count p + total (fun x => (inHand u x).count p) (s.threads.set i ⟨t.role, pc'⟩) + _ + _ =
    _ + total (fun x : Thread => (droppedEarly u x.pc).count p) (s.threads.set i ⟨t.role, pc'⟩) + _
  omega

theorem start_empty_handed (start : t.pc.Start) : inHand s t = [] ∧ droppedEarly s t.pc = [] := by
  obtain ⟨role, pc⟩ := t
  cases pc <;> simp_all [Pc.Start, inHand, droppedEarly]

theorem ledger_outside (p : Nat) (h : step cfg s l = some s') (outside : ∀ i ans, l ≠ .thread i ans) :
    held p s' = held p s ∧ early p s' = early p s := by
  obtain ⟨same, threads⟩ := step_outside h outside
  have kept : registered s' = registered s := by
    unfold registered
    rw [same.packets.1, same.packets.2]
  have stays : places s' = places s := by
    unfold places
    rw [kept, same.queue.1]
  have hands (t : Thread) : inHand s' t = inHand s t := inHand_same same.packets.1
  have drops (t : Thread) : droppedEarly s' t.pc = droppedEarly s t.pc := droppedEarly_same kept
  unfold held early
  simp only [stays, hands, drops]
  rcases threads with still | ⟨t, more, start⟩
  · rw [still]
    exact ⟨rfl, rfl⟩
  · obtain ⟨empty, none⟩ := start_empty_handed (s := s) start
    rw [more, total_append_one, total_append_one, empty, none]
    exact ⟨rfl, rfl⟩

theorem drops_aside (drops : decremented cfg s pc = some packet) : 0 < finishing pc + initialising pc := by
  cases pc
  all_goals first
    | exact Nat.one_pos
    | cases drops

/-- While a reference is dropped, no `WSASend` is outstanding. -/
theorem drop_after_send (sep : Separate cfg s) (reg : Registration s) (member : t ∈ s.threads)
    (drops : 0 < finishing t.pc + initialising t.pc) : s.sendIo = [] := by
  have token := reg.token.2
  have finisher := le_weigh (w := finishing) member
  have initialiser := le_weigh (w := initialising) member
  unfold holders at token
  refine List.length_eq_zero_iff.mp ?_
  rcases sep.identified.exclusive.2 with none | ⟨-, ops⟩
  · omega
  · simp only [core] at ops
    omega

end WanNet.Session
