import Mathlib.Algebra.BigOperators.Ring.List
import WanNet.Traffic.Model

/-!
No packet goes back to the pool while anyone uses it, and each goes back when nobody does.
-/

namespace WanNet.Session
open Transition Threads ReleaseCount

variable {cfg : Config} {s s' : Slot} {t : Thread} {i packet : Nat} {l : Label}

/-! ### The references of a slot -/

/-- The slot has a reference on the packet that `Init` has not dropped. -/
def Retains (packet : Nat) (s : Slot) : Prop := early packet s < held packet s

theorem droppedEarly_le (s : Slot) (packet : Nat) (pc : Pc) :
    (droppedEarly s pc).count packet ≤ ((registered s).map Queued.packet).count packet := by
  unfold droppedEarly
  split
  · exact List.Sublist.count_le _ ((List.take_sublist _ _).map _)
  · exact Nat.le_refl _
  · exact Nat.zero_le _

/-- One thread at most initialises the slot. -/
theorem early_le_registered (exclusive : Exclusive s) (packet : Nat) :
    early packet s ≤ ((registered s).map Queued.packet).count packet := by
  have each (t : Thread) : (droppedEarly s t.pc).count packet ≤
      ((registered s).map Queued.packet).count packet * initialising t.pc := by
    by_cases aside : initialising t.pc = 0
    · rw [droppedEarly_aside aside]
      exact Nat.zero_le _
    · exact Nat.le_trans (droppedEarly_le s packet t.pc) (Nat.le_mul_of_pos_right _ (Nat.pos_of_ne_zero aside))
  have all := total_le_total each s.threads
  have scaled : total (fun t : Thread => ((registered s).map Queued.packet).count packet * initialising t.pc) s.threads =
      ((registered s).map Queued.packet).count packet * weigh initialising s := List.sum_map_mul_left ..
  have one := Nat.mul_le_mul_left (((registered s).map Queued.packet).count packet) exclusive.1
  rw [scaled] at all
  unfold early
  omega

/-- All that has been dropped early, the thread at it has dropped. -/
theorem early_alone (exclusive : Exclusive s) (at_i : s.threads[i]? = some t) (initialises : initialising t.pc = 1) (packet : Nat) :
    early packet s = (droppedEarly s t.pc).count packet := by
  have set := total_set (w := fun t : Thread => (droppedEarly s t.pc).count packet) (b := ⟨t.role, .finished⟩) at_i
  have others : total (fun t : Thread => (droppedEarly s t.pc).count packet) (s.threads.set i ⟨t.role, .finished⟩) = 0 := by
    apply total_eq_zero.mpr
    intro c member
    rcases mem_set_at member with rfl | ⟨j, apart, at_j⟩
    · rfl
    · have two := add_le_total (w := fun t : Thread => initialising t.pc) at_i at_j apart
      have one := exclusive.1
      unfold weigh at one
      have aside : initialising c.pc = 0 := by omega
      rw [droppedEarly_aside aside]
      rfl
  have none : (droppedEarly s (⟨t.role, .finished⟩ : Thread).pc).count packet = 0 := rfl
  unfold early
  omega

theorem held_eq (packet : Nat) (s : Slot) : held packet s = (s.SendQueue.map Queued.packet).count packet +
    ((registered s).map Queued.packet).count packet + total (fun t => (inHand s t).count packet) s.threads := by
  rw [held, places, List.map_append, List.count_append]

theorem early_le_held (exclusive : Exclusive s) (packet : Nat) : early packet s ≤ held packet s := by
  have := early_le_registered exclusive packet
  rw [held_eq]
  omega

theorem retains_of_queue (exclusive : Exclusive s) {q : Queued} (queued : q ∈ s.SendQueue) : Retains q.packet s := by
  have below := early_le_registered exclusive q.packet
  have counts : 0 < (s.SendQueue.map Queued.packet).count q.packet :=
    List.count_pos_iff.mpr (List.mem_map_of_mem queued)
  unfold Retains
  rw [held_eq]
  omega

theorem retains_of_hand (exclusive : Exclusive s) (member : t ∈ s.threads) (has : packet ∈ inHand s t) : Retains packet s := by
  have below := early_le_registered exclusive packet
  have counts := List.count_pos_iff.mpr has
  have hand := le_total (w := fun t => (inHand s t).count packet) member
  unfold Retains
  rw [held_eq]
  omega

/-- Nobody initialises the slot. -/
theorem retains_of_registered (uninitialised : weigh initialising s = 0) {q : Queued} (there : q ∈ registered s) :
    Retains q.packet s := by
  have none : early q.packet s = 0 := total_eq_zero.mpr fun t member => by
    have own := le_weigh (w := initialising) member
    rw [droppedEarly_aside (by omega)]
    rfl
  have counts : 0 < ((registered s).map Queued.packet).count q.packet := List.count_pos_iff.mpr (List.mem_map_of_mem there)
  unfold Retains
  rw [held_eq]
  omega

/-- What a pending `WSASend` reads. -/
theorem retains_of_sendIo (sep : Separate cfg s) (reg : Registration s) {io : SendIo} (pending : io ∈ s.sendIo) {q : Queued}
    (reads : q ∈ io.packets) : Retains q.packet s := by
  refine retains_of_registered ?_ ((reg.sent io pending).1 ▸ reads)
  have length := List.length_pos_of_mem pending
  rcases sep.identified.exclusive.2 with none | ⟨-, ops⟩
  · exact none
  · simp only [core] at ops
    omega

/-- What a `PostSend` has put in its `wsabuf`. -/
theorem retains_of_batch (sep : Separate cfg s) (reg : Registration s) (member : t ∈ s.threads) {q : Queued}
    (batched : q ∈ batchOf t.pc) : Retains q.packet s := by
  have acts : 0 < acting t.pc ∧ registered s = batchOf t.pc := by
    have registers := reg.threads t member
    cases at_ : t.pc
    case sendDequeue n wsabuf =>
      rw [at_] at registers
      exact ⟨Nat.one_pos, registers.1⟩
    case wsaSend wsabuf =>
      rw [at_] at registers
      exact ⟨Nat.one_pos, registers.1⟩
    all_goals
      rw [at_] at batched
      cases batched
  refine retains_of_registered ?_ (acts.2 ▸ batched)
  have own := le_weigh (w := acting) member
  rcases sep.identified.exclusive.2 with none | ⟨idle, -⟩
  · exact none
  · omega

/-- What is dropped next has been held until now. -/
theorem retains_of_drop (exclusive : Exclusive s) (at_i : s.threads[i]? = some t) (drops : decremented cfg s t.pc = some packet) :
    Retains packet s := by
  have member := List.mem_of_getElem? at_i
  obtain ⟨role, pc⟩ := t
  cases pc with
  | sendDoneDrop count k =>
    simp only [decremented] at drops
    split at drops
    next within_ =>
      obtain rfl := Option.some.inj drops
      refine retains_of_hand exclusive member ?_
      have entry : (((List.range count).map s.RegisteredPackets).drop k)[0]? = some (s.RegisteredPackets k) := by
        simp [within_]
      exact List.mem_map_of_mem (List.mem_of_getElem? entry)
    · cases drops
  | initDrain =>
    simp only [decremented] at drops
    split at drops
    · cases drops
    · obtain ⟨q, first, rfl⟩ := Option.map_eq_some_iff.mp drops
      exact retains_of_queue exclusive (List.mem_of_head? first)
  | initDropRefs k =>
    simp only [decremented] at drops
    split at drops
    next within_ =>
      obtain rfl := Option.some.inj drops
      have entry : (registered s)[k]? = some (s.RegisteredPackets k) := registered_at within_
      have more := ((List.take_sublist (k + 1) (registered s)).map Queued.packet).count_le (s.RegisteredPackets k).packet
      rw [List.take_add_one, entry] at more
      simp only [Option.toList_some, List.map_append, List.map_cons, List.map_nil, List.count_append, List.count_singleton_self] at more
      unfold Retains
      rw [early_alone exclusive at_i rfl, held_eq]
      simp only [droppedEarly]
      omega
    · cases drops
  | _ => cases drops

end WanNet.Session

namespace WanNet.Server
open Transition Session Threads

variable {p : Params} {s s' : NetServer} {key i packet : Nat} {v : Slot} {t : Thread} {l : Label}

theorem Slots.registration (slots : Slots p s) (here : s.mSessionList[key]? = some v) :
    Separate (p.config key) v ∧ Registration v := by
  obtain ⟨_, run⟩ := slots.slots key v here
  exact Run.registration run

theorem Slots.exclusive (slots : Slots p s) (member : v ∈ s.mSessionList) : Exclusive v := by
  obtain ⟨key, here⟩ := List.mem_iff_getElem?.mp member
  exact (slots.registration here).1.identified.exclusive

theorem Slots.early_le_held (slots : Slots p s) (packet : Nat) :
    total (early packet) s.mSessionList ≤ total (held packet) s.mSessionList :=
  List.sum_le_sum fun _ member => Session.early_le_held (slots.exclusive member) packet

/-- A slot that retains a reference makes one of the server's. -/
theorem Slots.retains (slots : Slots p s) (member : v ∈ s.mSessionList) (retains : Retains packet v) :
    total (early packet) s.mSessionList < total (held packet) s.mSessionList :=
  List.sum_lt_sum _ _ (fun _ member => Session.early_le_held (slots.exclusive member) packet) ⟨v, member, retains⟩

theorem Slots.retains_of_drop (slots : Slots p s) (drops : decrementOf p (s, l) = some packet) :
    total (early packet) s.mSessionList < total (held packet) s.mSessionList := by
  unfold decrementOf at drops
  split at drops
  next key i ans =>
    obtain ⟨v, here, drops⟩ := Option.bind_eq_some_iff.mp drops
    obtain ⟨t, at_i, drops⟩ := Option.bind_eq_some_iff.mp drops
    have member := List.mem_of_getElem? here
    exact slots.retains member (Session.retains_of_drop (slots.exclusive member) at_i drops)
  · cases drops

end WanNet.Server

namespace WanNet.Traffic
open Transition Serializer RefPool Session Threads

variable {p : Params} {s s' : State} {cfg : Config} {v v' u : Slot} {t : Thread} {pc pc' : Pc} {role : Role} {ans : Answer}
  {key i j packet : Nat}

/-! ### Calls on their callers' references -/

theorem next_beforeAddRef (h : next cfg v role ans pc = some (u, pc')) (before : beforeAddRef pc' = true) : beforeAddRef pc = true := by
  cases next_moves h with
  | decDecrement again | releasePush again => cases again <;> cases before
  | _ =>
    first
      | rfl
      | cases before

theorem step_spawns {l : Session.Label} (h : Session.step cfg v l = some v') (outside : ∀ i ans, l ≠ .thread i ans) :
    v'.threads = v.threads ∨ ∃ t, v'.threads = v.threads ++ [t] ∧ (packetOf t = none ∨ ∃ call sessionID, l = .call call sessionID ∧
      t.role = .api call sessionID) := by
  cases l with
  | accept count sock address =>
    obtain ⟨-, rfl⟩ := Session.step_accept h
    exact .inr ⟨_, rfl, .inl rfl⟩
  | call call sessionID =>
    obtain rfl := Option.some.inj h
    exact .inr ⟨_, rfl, .inr ⟨call, sessionID, rfl, rfl⟩⟩
  | recvCompletes j data =>
    obtain ⟨io, -, -, rfl⟩ := step_recvCompletes h
    exact .inl rfl
  | recvFails j =>
    obtain ⟨io, -, rfl⟩ := step_recvFails h
    exact .inl rfl
  | sendCompletes j =>
    obtain ⟨io, -, rfl⟩ := step_sendCompletes h
    exact .inl rfl
  | sendFails j =>
    obtain ⟨io, -, rfl⟩ := step_sendFails h
    exact .inl rfl
  | workRecv j =>
    obtain ⟨io, success, n, -, -, rfl⟩ := step_workRecv h
    exact .inr ⟨_, rfl, .inl rfl⟩
  | workSend j =>
    obtain ⟨io, success, n, -, -, rfl⟩ := step_workSend h
    exact .inr ⟨_, rfl, .inl rfl⟩
  | workRelease j =>
    obtain ⟨sessionID, -, rfl⟩ := step_workRelease h
    exact .inr ⟨_, rfl, .inl rfl⟩
  | thread i ans => exact absurd rfl (outside i ans)

/-- Who borrows a packet after a step did before, or has just been called with it. -/
theorem slot_borrows {l : Session.Label} (h : Session.step cfg v l = some v') (member : t ∈ v'.threads)
    (borrow : borrows packet t = true) :
    (∃ t ∈ v.threads, borrows packet t = true) ∨
      ∃ call sessionID, l = .call call sessionID ∧ packetOf ⟨.api call sessionID, .callIncrement⟩ = some packet := by
  have outside (outside : ∀ i ans, l ≠ .thread i ans) : (∃ t ∈ v.threads, borrows packet t = true) ∨
      ∃ call sessionID, l = .call call sessionID ∧ packetOf ⟨.api call sessionID, .callIncrement⟩ = some packet := by
    rcases step_spawns h outside with still | ⟨new, more, how⟩
    · exact .inl ⟨t, still ▸ member, borrow⟩
    · rw [more] at member
      rcases List.mem_append.mp member with old | joined
      · exact .inl ⟨t, old, borrow⟩
      · obtain rfl := List.mem_singleton.mp joined
        obtain ⟨of, -⟩ : packetOf t = some packet ∧ beforeAddRef t.pc = true := by simpa [borrows] using borrow
        rcases how with none | ⟨call, sessionID, is, role⟩
        · cases none.symm.trans of
        · refine .inr ⟨call, sessionID, is, ?_⟩
          rw [← of, packetOf, packetOf, role]
  cases l with
  | thread i ans =>
    obtain ⟨moved, u, pc', at_i, taken, rfl⟩ := step_thread h
    rcases mem_moved member with old | rfl
    · exact .inl ⟨t, old, borrow⟩
    · obtain ⟨of, before⟩ : packetOf ⟨moved.role, pc'⟩ = some packet ∧ beforeAddRef pc' = true := by simpa [borrows] using borrow
      refine .inl ⟨moved, List.mem_of_getElem? at_i, ?_⟩
      have same : packetOf moved = some packet := of
      simp [borrows, same, next_beforeAddRef taken before]
  | _ => exact outside (by simp)

theorem step_borrows {q : Server.Params} {s s' : Server.NetServer} {l : Server.Label} (h : Server.step q s l = some s')
    (inside : v' ∈ s'.mSessionList) (member : t ∈ v'.threads) (borrow : borrows packet t = true) :
    (∃ v ∈ s.mSessionList, ∃ t ∈ v.threads, borrows packet t = true) ∨ passed l = some packet := by
  have put {key : Nat} {v w : Slot} {cfg : Config} {l' : Session.Label} (list : s'.mSessionList = s.mSessionList.set key w)
      (here : s.mSessionList[key]? = some v) (taken : Session.step cfg v l' = some w) :
      (∃ v ∈ s.mSessionList, ∃ t ∈ v.threads, borrows packet t = true) ∨
        ∃ call sessionID, l' = .call call sessionID ∧ packetOf ⟨.api call sessionID, .callIncrement⟩ = some packet := by
    rw [list] at inside
    rcases mem_set_at inside with rfl | ⟨j, -, at_j⟩
    · rcases slot_borrows taken member borrow with old | called
      · exact .inl ⟨v, List.mem_of_getElem? here, old⟩
      · exact .inr called
    · exact .inl ⟨v', List.mem_of_getElem? at_j, t, member, borrow⟩
  cases l with
  | accept address =>
    obtain ⟨-, ⟨-, rfl⟩ | ⟨key, rest, v, w, -, here, taken, rfl⟩⟩ := Server.step_accept h
    · exact .inl ⟨v', inside, t, member, borrow⟩
    · rcases put rfl here taken with old | ⟨call, sessionID, is, -⟩
      · exact .inl old
      · cases is
  | call request sessionID =>
    obtain ⟨rfl, -⟩ | ⟨call, key, v, w, is, -, here, taken, rfl⟩ := Server.step_call h
    · exact .inl ⟨v', inside, t, member, borrow⟩
    · rcases put rfl here taken with old | ⟨call, sessionID, ⟨⟩, of⟩
      · exact .inl old
      · right
        cases request with
        | sendPacket n | sendAndDisconnect n =>
          obtain ⟨n, rfl, rfl⟩ := Option.map_eq_some_iff.mp is
          exact of
        | disconnect | getSessionAddress =>
          cases is
          cases of
  | «at» key l =>
    obtain ⟨v, w, u, here, taken, rfl, how⟩ := Server.step_at h
    have list : (u.put key w).mSessionList = s.mSessionList.set key w := by
      obtain ⟨rfl, -⟩ | ⟨i, ans, x, -, -, rfl⟩ := how
      · rfl
      · show (Server.effect s v x.pc).mSessionList.set key w = _
        rw [(Server.effect_same s v x.pc).1]
    rcases put list here taken with old | ⟨call, sessionID, rfl, -⟩
    · exact .inl old
    · cases h

/-! ### The counts -/

def waiting (s : State) (packet : Nat) : Nat := (s.copied.map Copied.packet).count packet

/-- Every count says who has references: the application, the workers between a packet copy and
`OnReceive`, and the slots. -/
structure Ledger (s : State) : Prop where
  counts : ∀ n, references (s.pool.object n) + total (early n) s.server.mSessionList =
    s.refs n + waiting s n + total (held n) s.server.mSessionList
  sound : s.pool.Sound references
  borrowed : ∀ v ∈ s.server.mSessionList, ∀ t ∈ v.threads, ∀ n, borrows n t = true → 0 < s.refs n

theorem Ledger.init (started : Started p s) : Ledger s := by
  obtain ⟨fresh, -⟩ := started.server
  refine ⟨fun n => ?_, ⟨fun n => ?_, ?_, fun n _ => started.pool.2.2 n⟩, fun v member t inside => ?_⟩
  · obtain ⟨held, early⟩ := Server.started_empty n started.server
    rw [held, early, started.pool.2.2, started.unused.1, waiting, started.unused.2]
    rfl
  · simp [started.pool.1, started.pool.2.1]
  · rw [started.pool.1]
    exact List.nodup_nil
  · rw [(fresh.slots v member).1.idle.1] at inside
    cases inside

theorem references_incremented {q : Packet} (fits : references q + 1 < 2 ^ 32) :
    references q.incrementRefCount = references q + 1 := by
  unfold references Packet.incrementRefCount at *
  rw [UInt32.toNat_add, UInt32.toNat_one]
  exact Nat.mod_eq_of_lt fits

theorem references_decremented {q : Packet} (used : 0 < references q) : references q.decrementRefCount + 1 = references q := by
  unfold references Packet.decrementRefCount at *
  rw [UInt32.toNat_sub_of_le, UInt32.toNat_one]
  · omega
  · exact UInt32.le_iff_toNat_le.mpr used

/-- What a step of the server does to the packets changes the counts as it does the references. -/
structure Turn (s s' : State) (taken dropped : Option Nat) : Prop where
  server : s'.server = s.server
  counts : ∀ n, references (s'.pool.object n) + dropped.toList.count n + s.refs n + waiting s n =
    references (s.pool.object n) + taken.toList.count n + s'.refs n + waiting s' n
  sound : s'.pool.Sound references
  granted : ∀ n, s.refs n ≤ s'.refs n

theorem count_one (packet n : Nat) : (some packet).toList.count n = if n = packet then 1 else 0 := by
  by_cases here : n = packet
  · simp [here]
  · simp [here, Ne.symm here]

theorem Turn.addRef (sound : s.pool.Sound references) (used : 0 < references (s.pool.object packet))
    (fits : references (s.pool.object packet) + 1 < 2 ^ 32) : Turn s (s.addRef packet) (some packet) none := by
  have more := references_incremented fits
  refine ⟨rfl, fun n => ?_, sound.set used (by omega), fun n => Nat.le_refl _⟩
  show references ((s.pool.set packet _).object n) + _ + _ + _ = _ + _ + _ + waiting s n
  rw [count_one]
  by_cases here : n = packet
  · subst here
    rw [set_self, more, if_pos rfl, Option.toList_none, List.count_nil]
    show _ + _ + s.refs n + _ = _ + _ + s.refs n + _
    omega
  · rw [set_other _ _ here, if_neg here]
    rfl

theorem Turn.release (sound : s.pool.Sound references) (used : 0 < references (s.pool.object packet)) :
    Turn s (s.release packet) none (some packet) := by
  have less := references_decremented used
  refine ⟨rfl, fun n => ?_, sound.drop used _, fun n => Nat.le_refl _⟩
  show references ((s.pool.drop references packet _).object n) + _ + s.refs n + _ = _ + _ + s.refs n + waiting s n
  rw [count_one, drop_object]
  by_cases here : n = packet
  · subst here
    rw [set_self, if_pos rfl, Option.toList_none, List.count_nil]
    omega
  · rw [set_other _ _ here, if_neg here]
    rfl

theorem Turn.handOver (sound : s.pool.Sound references) (key i : Nat) : Turn s (handOver s key i) none none := by
  rcases handOver_cases s key i with same | ⟨c, member, -, -, given⟩
  · rw [same]
    exact ⟨rfl, fun n => rfl, sound, fun n => Nat.le_refl _⟩
  · rw [given]
    have perm := (List.perm_cons_erase member).map Copied.packet
    have waits (n : Nat) : waiting s n = ((s.copied.erase c).map Copied.packet).count n + if n = c.packet then 1 else 0 := by
      rw [waiting, perm.count_eq, List.map_cons, List.count_cons]
      by_cases here : n = c.packet
      · simp [here]
      · simp [here, Ne.symm here]
    refine ⟨rfl, fun n => ?_, sound, fun n => ?_⟩
    · show references (s.pool.object n) + _ + s.refs n + waiting s n = references (s.pool.object n) + _ +
        (if n = c.packet then s.refs n + 1 else s.refs n) + ((s.copied.erase c).map Copied.packet).count n
      rw [waits]
      split <;> omega
    · show s.refs n ≤ if n = c.packet then s.refs n + 1 else s.refs n
      split <;> omega

theorem references_received {pooled q : Packet} {ok : Bool} {frame : List UInt8} {length : UInt16} (unused : references pooled = 0)
    (received : pooled.receive frame length = .ok (q, ok)) : references q = 1 := by
  obtain ⟨memory, rfl⟩ := Packet.receive_memory received
  have first := references_incremented (q := pooled.clear) (by
    show references pooled + 1 < _
    omega)
  show references pooled.clear.incrementRefCount = 1
  rw [first]
  show references pooled + 1 = 1
  omega

theorem Turn.copyFrame {rb : RingBuffer RecvByte} (sound : s.pool.Sound references) (h : copyFrame p s key i rb j = some s') :
    Turn s s' none none := by
  rcases copyFrame_cases h with rfl | ⟨packet, pool, frame, rest, q, ok, taken, -, received, how⟩
  · exact ⟨rfl, fun n => rfl, sound, fun n => Nat.le_refl _⟩
  · obtain ⟨unused, -⟩ := sound.taken j
    have first : references q = 1 := references_received (by rwa [taken] at unused) received
    have alloc := sound.alloc (a := q) j (by omega)
    have object := take_object s.pool j
    rw [taken] at alloc object unused
    simp only at alloc object unused
    obtain ⟨-, rfl⟩ | ⟨-, rfl⟩ := how
    · refine ⟨rfl, fun n => ?_, alloc, fun n => Nat.le_refl _⟩
      show references ((pool.set packet q).object n) + _ + s.refs n + waiting s n = _ + _ + s.refs n +
        ((s.copied ++ [(⟨key, i, packet⟩ : Copied)]).map Copied.packet).count n
      rw [List.map_append, List.count_append]
      show _ = _ + _ + s.refs n + (waiting s n + (some packet).toList.count n)
      rw [count_one]
      by_cases here : n = packet
      · subst here
        rw [set_self, first, unused, if_pos rfl]
        omega
      · rw [set_other _ _ here, object, if_neg here]
        rfl
    · have used : 0 < references ((pool.set packet q).object packet) := by
        rw [set_self]
        omega
      have drops := Turn.release (s := { s with pool := pool.set packet q }) alloc used
      refine ⟨rfl, fun n => ?_, drops.sound, fun n => Nat.le_refl _⟩
      have counts := drops.counts n
      generalize references ((State.release { s with pool := pool.set packet q } packet).pool.object n) = after at counts ⊢
      replace counts : after + (some packet).toList.count n + s.refs n + waiting s n =
        references ((pool.set packet q).object n) + 0 + s.refs n + waiting s n := counts
      show after + 0 + s.refs n + waiting s n = references (s.pool.object n) + 0 + s.refs n + waiting s n
      rw [count_one] at counts
      by_cases here : n = packet
      · subst here
        rw [set_self, first, if_pos rfl] at counts
        rw [unused]
        omega
      · rw [set_other _ _ here, object, if_neg here] at counts
        omega

/-- Whoever has a reference sees a count above 0. -/
theorem Ledger.used (ledger : Ledger s) (slots : Server.Slots q s.server) (has : 0 < s.refs packet ∨ 0 < waiting s packet ∨
    total (early packet) s.server.mSessionList < total (held packet) s.server.mSessionList) :
    0 < references (s.pool.object packet) := by
  have counts := ledger.counts packet
  have below := slots.early_le_held packet
  omega

theorem Ledger.borrowed_used (ledger : Ledger s) (slots : Server.Slots q s.server)
    (here : threadAt s.server key i = some (v, t)) (borrow : borrows packet t = true) : 0 < references (s.pool.object packet) := by
  obtain ⟨at_key, at_i⟩ := threadAt_some here
  exact ledger.used slots (.inl (ledger.borrowed v (List.mem_of_getElem? at_key) t (List.mem_of_getElem? at_i) packet borrow))

theorem borrows_of_incremented (is : incremented t = some packet) : borrows packet t = true := by
  obtain ⟨at_, of⟩ := incremented_iff.mp is
  simp [borrows, of, at_, beforeAddRef]

theorem threadAt_of_increment {s : Server.NetServer} {l : Server.Label} (incs : Server.incrementOf (s, l) = some packet) :
    ∃ key i ans v t, l = .at key (.thread i ans) ∧ threadAt s key i = some (v, t) ∧ incremented t = some packet := by
  unfold Server.incrementOf at incs
  split at incs
  next key i ans is =>
    obtain ⟨v, here, incs⟩ := Option.bind_eq_some_iff.mp incs
    obtain ⟨t, at_i, incs⟩ := Option.bind_eq_some_iff.mp incs
    refine ⟨key, i, ans, v, t, is, ?_, incs⟩
    simp [threadAt, here, at_i]
  · cases incs

theorem Acts.turn {l : Server.Label} (acts : Acts p s l j s') (ledger : Ledger s) (slots : Server.Slots p.server s.server)
    (owns : Owns p s (.server l j)) : Turn s s' (Server.incrementOf (s.server, l)) (Server.decrementOf p.server (s.server, l)) := by
  have quiet {key i : Nat} (ans : Answer) {v : Slot} {t : Thread} (here : threadAt s.server key i = some (v, t))
      (incs : incremented t = none) (decs : decremented (p.server.config key) v t.pc = none) :
      Server.incrementOf (s.server, .at key (.thread i ans)) = none ∧ Server.decrementOf p.server (s.server, .at key (.thread i ans)) = none := by
    obtain ⟨at_key, at_i⟩ := threadAt_some here
    obtain ⟨incs', decs'⟩ := Server.thread_events ans at_key at_i
    exact ⟨incs'.trans incs, decs'.trans decs⟩
  cases acts with
  | retains packet incs decs ready =>
    obtain ⟨key, i, ans, v, t, -, here, is⟩ := threadAt_of_increment incs
    rw [incs, decs]
    exact .addRef ledger.sound (ledger.borrowed_used slots here (borrows_of_incremented is)) (owns.2.2 packet incs)
  | releases packet incs decs =>
    rw [incs, decs]
    exact .release ledger.sound (ledger.used slots (.inr (.inr (slots.retains_of_drop decs))))
  | copies key i ans v t is here at_ _ copied =>
    subst is
    obtain ⟨incs, decs⟩ := quiet ans here (by simp [incremented, at_]) (by simp [decremented, at_])
    rw [incs, decs]
    exact .copyFrame ledger.sound copied
  | handsOver key i ans v t frame is here at_ =>
    subst is
    obtain ⟨incs, decs⟩ := quiet ans here (by simp [incremented, at_]) (by simp [decremented, at_])
    rw [incs, decs]
    exact .handOver ledger.sound key i
  | aside incs decs =>
    rw [incs, decs]
    exact ⟨rfl, fun n => rfl, ledger.sound, fun n => Nat.le_refl _⟩

theorem Ledger.server {l : Server.Label} {server : Server.NetServer} (ledger : Ledger s) (slots : Server.Slots p.server s.server)
    (owns : Owns p s (.server l j)) (acts : Acts p s l j s') (h : Server.step p.server s.server l = some server) :
    Ledger { s' with server := server } := by
  have turn := acts.turn ledger slots owns
  refine ⟨fun n => ?_, turn.sound, fun v inside t member n borrow => ?_⟩
  · have counts := ledger.counts n
    have moves := Server.step_ledger n slots h
    have turns := turn.counts n
    show references (s'.pool.object n) + total (early n) server.mSessionList = s'.refs n + waiting s' n +
      total (held n) server.mSessionList
    omega
  · have grows : s.refs n ≤ s'.refs n := turn.granted n
    have had : 0 < s.refs n := by
      rcases step_borrows h inside member borrow with ⟨v, inside, t, member, borrow⟩ | called
      · exact ledger.borrowed v inside t member n borrow
      · exact owns.2.1 n called
    exact Nat.lt_of_lt_of_le had grows

/-- An object in use changes, its count does not. -/
theorem Ledger.put {q : Packet} (ledger : Ledger s) (used : 0 < references (s.pool.object packet))
    (same : references q = references (s.pool.object packet)) : Ledger (s.put packet q) := by
  refine ⟨fun n => ?_, ledger.sound.set used (by omega), ledger.borrowed⟩
  have counts := ledger.counts n
  by_cases here : n = packet
  · subst here
    show references ((s.pool.set n q).object n) + _ = _
    rw [set_self, same]
    exact counts
  · show references ((s.pool.set packet q).object n) + _ = _
    rw [set_other _ _ here]
    exact counts

theorem Ledger.prepare {rand : UInt8} (ledger : Ledger s) (used : 0 < references (s.pool.object packet))
    (prepares : Prepares s key i packet rand s') : Ledger s' := by
  have put {q : Packet} (same : q.mRefCount = (s.pool.object packet).mRefCount) : Ledger (s.put packet q) :=
    ledger.put used (congrArg UInt32.toNat same)
  cases prepares with
  | tests => exact ⟨ledger.counts, ledger.sound, ledger.borrowed⟩
  | marks =>
    have after := put (q := { s.pool.object packet with mbSendPrepared := true }) rfl
    exact ⟨after.counts, after.sound, after.borrowed⟩
  | writesHeader q at_ set =>
    obtain ⟨memory, rfl⟩ := Packet.setHeaderValue_memory set
    have after := put (q := { s.pool.object packet with memory := memory }) rfl
    exact ⟨after.counts, after.sound, after.borrowed⟩
  | encodes q at_ encodes =>
    obtain ⟨memory, rfl⟩ := Packet.sweep_memory encodes
    have after := put (q := { s.pool.object packet with memory := memory }) rfl
    exact ⟨after.counts, after.sound, after.borrowed⟩

theorem Ledger.alloc (ledger : Ledger s) (h : step p s (.alloc j) = some s') : Ledger s' := by
  obtain rfl := Option.some.inj h
  obtain ⟨unused, -⟩ := ledger.sound.taken j
  have first : references (s.pool.object (s.pool.take j).1).alloc = 1 := by
    have more := references_incremented (q := (s.pool.object (s.pool.take j).1).clear) (by
      show references (s.pool.object (s.pool.take j).1) + 1 < _
      omega)
    show references (Packet.clear _).incrementRefCount = 1
    rw [more]
    show references (s.pool.object (s.pool.take j).1) + 1 = 1
    omega
  refine ⟨fun n => ?_, ledger.sound.alloc j (by omega), fun v inside t member n borrow => ?_⟩
  · have counts := ledger.counts n
    show references (((s.pool.take j).2.set (s.pool.take j).1 _).object n) + _ =
      (if n = (s.pool.take j).1 then s.refs n + 1 else s.refs n) + waiting s n + _
    by_cases here : n = (s.pool.take j).1
    · rw [here] at counts ⊢
      rw [set_self, first, if_pos rfl]
      show 1 + total (early _) s.server.mSessionList = _ + _ + total (held _) s.server.mSessionList
      omega
    · rw [set_other _ _ here, take_object, if_neg here]
      exact counts
  · have had := ledger.borrowed v inside t member n borrow
    show 0 < if n = (s.pool.take j).1 then s.refs n + 1 else s.refs n
    split <;> omega

theorem Ledger.free (ledger : Ledger s) (slots : Server.Slots p.server s.server) (owns : Owns p s (.free packet))
    (h : step p s (.free packet) = some s') : Ledger s' := by
  obtain rfl := Option.some.inj h
  obtain ⟨has, last⟩ := owns
  have drops := Turn.release (s := s.yields packet) ledger.sound (ledger.used slots (.inl has))
  refine ⟨fun n => ?_, drops.sound, fun v inside t member n borrow => ?_⟩
  · have counts := ledger.counts n
    have turns := drops.counts n
    rw [count_one] at turns
    have less : (s.yields packet).refs n = if n = packet then s.refs n - 1 else s.refs n := rfl
    have same : waiting ((s.yields packet).release packet) n = waiting s n := rfl
    have kept : ((s.yields packet).release packet).refs n = (s.yields packet).refs n := rfl
    have still : waiting (s.yields packet) n = waiting s n := rfl
    have object : references ((s.yields packet).pool.object n) = references (s.pool.object n) := rfl
    show _ + total (early n) s.server.mSessionList = _ + _ + total (held n) s.server.mSessionList
    rw [kept, still, object] at turns
    rw [kept, same, less]
    split at turns
    next here =>
      subst here
      rw [if_pos rfl]
      rw [Option.toList_none, List.count_nil] at turns
      omega
    next other =>
      rw [if_neg other]
      rw [Option.toList_none, List.count_nil] at turns
      omega
  · have had := ledger.borrowed v inside t member n borrow
    show 0 < if n = packet then s.refs n - 1 else s.refs n
    split
    next here =>
      subst here
      by_cases one : s.refs n = 1
      · exact absurd ⟨v, inside, t, member, borrow⟩ (last one)
      · omega
    · exact had

/-- Every step keeps the ledger. -/
theorem Ledger.step {l : Label} (ledger : Ledger s) (slots : Server.Slots p.server s.server) (owns : Owns p s l)
    (h : step p s l = some s') : Ledger s' := by
  cases l with
  | alloc j => exact ledger.alloc h
  | free packet => exact ledger.free slots owns h
  | use packet call =>
    obtain ⟨⟨q, r⟩, called, rfl⟩ := Option.map_eq_some_iff.mp h
    exact ledger.put (ledger.used slots (.inl owns)) (congrArg UInt32.toNat (Packet.call_mRefCount (toOption_eq_some called)))
  | prepare key i rand =>
    obtain ⟨⟨v, t⟩, here, h⟩ := Option.bind_eq_some_iff.mp h
    obtain ⟨packet, is, h⟩ := Option.bind_eq_some_iff.mp h
    exact ledger.prepare (ledger.borrowed_used slots here (borrows_of_incremented is)) (prepare_cases h)
  | server l j =>
    obtain ⟨s₁, acted, h⟩ := Option.bind_eq_some_iff.mp h
    obtain ⟨server, taken, rfl⟩ := Option.map_eq_some_iff.mp h
    exact ledger.server slots owns (act_cases acted) taken

theorem step_server {l : Label} (h : step p s l = some s') :
    s'.server = s.server ∧ (∀ l' j, l ≠ .server l' j) ∨
      ∃ l' j, l = .server l' j ∧ Server.step p.server s.server l' = some s'.server := by
  cases l with
  | alloc j | free packet =>
    obtain rfl := Option.some.inj h
    exact .inl ⟨rfl, nofun⟩
  | use packet call =>
    obtain ⟨_, -, rfl⟩ := Option.map_eq_some_iff.mp h
    exact .inl ⟨rfl, nofun⟩
  | prepare key i rand =>
    obtain ⟨_, -, h⟩ := Option.bind_eq_some_iff.mp h
    obtain ⟨_, -, h⟩ := Option.bind_eq_some_iff.mp h
    cases prepare_cases h <;> exact .inl ⟨rfl, nofun⟩
  | server l j =>
    obtain ⟨_, -, h⟩ := Option.bind_eq_some_iff.mp h
    obtain ⟨_, taken, rfl⟩ := Option.map_eq_some_iff.mp h
    exact .inr ⟨l, j, rfl, taken⟩

def Served (p : Params) (s : State) : Prop := ∃ tr, Run (Server.startedServer p.server)
  (fun s l => Server.FewEach p.server s l ∧ Server.InTime p.server s l) tr s.server

theorem run_served (run : Run (traffic p) (Owns p) tr s) : Served p s := by
  have start (s : State) (started : Started p s) : Served p s := ⟨[], .init started.server⟩
  refine run.invariant_state (I := Served p) start ?_
  intro s l s' ⟨tr', before⟩ owns h
  rcases step_server h with ⟨same, -⟩ | ⟨l', j, rfl, taken⟩
  · exact ⟨tr', same ▸ before⟩
  · exact ⟨_, before.step owns.1 taken⟩

theorem run_slots (run : Run (traffic p) (Owns p) tr s) : Server.Slots p.server s.server := by
  obtain ⟨_, served⟩ := run_served run
  exact Server.run_slots (Server.run_started served)

theorem run_ledger (run : Run (traffic p) (Owns p) tr s) : Ledger s :=
  run.invariant (I := fun _ s => Ledger s) (fun _ started => .init started) fun _ _ _ _ before ledger owns h =>
    ledger.step (run_slots before) owns h

/-! ### Uses of a packet -/

/-- Who is going to use the packet: the application, a worker that is about to call `OnReceive`, a call
without a reference of its own, a thread with one in hand, or whoever takes it from a session: from its
`SendQueue`, from a `wsabuf`, or from under a pending `WSASend`. -/
inductive InUse (s : State) (packet : Nat) : Prop where
  | application (has : 0 < s.refs packet)
  | worker (c : Copied) (waits : c ∈ s.copied) (is : c.packet = packet)
  | call (borrowed : Borrowed s packet)
  | thread (v : Slot) (inside : v ∈ s.server.mSessionList) (t : Thread) (member : t ∈ v.threads) (has : packet ∈ inHand v t)
  | queued (v : Slot) (inside : v ∈ s.server.mSessionList) (q : Queued) (waits : q ∈ v.SendQueue) (is : q.packet = packet)
  | batched (v : Slot) (inside : v ∈ s.server.mSessionList) (t : Thread) (member : t ∈ v.threads) (q : Queued)
      (batch : q ∈ batchOf t.pc) (is : q.packet = packet)
  | sending (v : Slot) (inside : v ∈ s.server.mSessionList) (io : SendIo) (pending : io ∈ v.sendIo) (q : Queued)
      (reads : q ∈ io.packets) (is : q.packet = packet)

theorem Ledger.of_use (ledger : Ledger s) (slots : Server.Slots p.server s.server) (uses : InUse s packet) :
    0 < references (s.pool.object packet) := by
  cases uses with
  | application has => exact ledger.used slots (.inl has)
  | worker c waits is => exact ledger.used slots (.inr (.inl (List.count_pos_iff.mpr (is ▸ List.mem_map_of_mem waits))))
  | call borrowed =>
    obtain ⟨v, inside, t, member, borrow⟩ := borrowed
    exact ledger.used slots (.inl (ledger.borrowed v inside t member packet borrow))
  | thread v inside t member has =>
    exact ledger.used slots (.inr (.inr (slots.retains inside (retains_of_hand (slots.exclusive inside) member has))))
  | queued v inside q waits is =>
    subst is
    exact ledger.used slots (.inr (.inr (slots.retains inside (retains_of_queue (slots.exclusive inside) waits))))
  | batched v inside t member q batch is =>
    subst is
    obtain ⟨key, here⟩ := List.mem_iff_getElem?.mp inside
    obtain ⟨sep, reg⟩ := slots.registration here
    exact ledger.used slots (.inr (.inr (slots.retains inside (retains_of_batch sep reg member batch))))
  | sending v inside io pending q reads is =>
    subst is
    obtain ⟨key, here⟩ := List.mem_iff_getElem?.mp inside
    obtain ⟨sep, reg⟩ := slots.registration here
    exact ledger.used slots (.inr (.inr (slots.retains inside (retains_of_sendIo sep reg pending reads))))

/-- The packet that a step reads, writes or counts. -/
def touched (p : Params) (x : State × Label) : Option Nat :=
  match x.2 with
  | .alloc _ => none
  | .free packet | .use packet _ => some packet
  | .prepare key i _ => (threadAt x.1.server key i).bind fun x => incremented x.2
  | .server l _ => (Server.incrementOf (x.1.server, l)).or (Server.decrementOf p.server (x.1.server, l))

theorem Ledger.of_touch {l : Label} (ledger : Ledger s) (slots : Server.Slots p.server s.server) (owns : Owns p s l)
    (touches : touched p (s, l) = some packet) : 0 < references (s.pool.object packet) := by
  cases l with
  | alloc j => cases touches
  | free n =>
    obtain rfl := Option.some.inj touches
    exact ledger.used slots (.inl owns.1)
  | use n call =>
    obtain rfl := Option.some.inj touches
    exact ledger.used slots (.inl owns)
  | prepare key i rand =>
    obtain ⟨⟨v, t⟩, here, is⟩ := Option.bind_eq_some_iff.mp touches
    exact ledger.borrowed_used slots here (borrows_of_incremented is)
  | server l j =>
    rcases Option.or_eq_some_iff.mp touches with incs | ⟨-, decs⟩
    · obtain ⟨key, i, ans, v, t, -, here, is⟩ := threadAt_of_increment incs
      exact ledger.borrowed_used slots here (borrows_of_incremented is)
    · exact ledger.used slots (.inr (.inr (slots.retains_of_drop decs)))

/-- A packet in use is out of the pool, no step touches one that is in it, and a packet is in the pool,
once, when it has been made and every reference on it is given up. -/
theorem packets_outlive_their_uses (run : Run (traffic p) (Owns p) tr s) :
    (∀ packet, InUse s packet → packet < s.pool.made ∧ packet ∉ s.pool.freed) ∧
      (∀ u l packet, (u, l) ∈ tr → touched p (u, l) = some packet → packet < u.pool.made ∧ packet ∉ u.pool.freed) ∧
      s.pool.freed.Nodup ∧
      ∀ packet, packet ∈ s.pool.freed ↔ packet < s.pool.made ∧ s.refs packet = 0 ∧ (∀ c ∈ s.copied, c.packet ≠ packet) ∧
        ∀ v ∈ s.server.mSessionList, held packet v = early packet v := by
  have ledger := run_ledger run
  have slots := run_slots run
  refine ⟨fun packet uses => ?_, fun u l packet taken touches => ?_, ledger.sound.once, fun packet => ?_⟩
  · have used := ledger.of_use slots uses
    exact ⟨ledger.sound.made_of_count used, ledger.sound.not_freed used⟩
  · obtain ⟨_, _, before, owns, -⟩ := run.mem taken
    have ledger := run_ledger before
    have used := ledger.of_touch (run_slots before) owns touches
    exact ⟨ledger.sound.made_of_count used, ledger.sound.not_freed used⟩
  · rw [ledger.sound.listed]
    refine and_congr_right fun _ => ?_
    have counts := ledger.counts packet
    have below := slots.early_le_held packet
    have waits : waiting s packet = 0 ↔ ∀ c ∈ s.copied, c.packet ≠ packet := by
      rw [waiting, List.count_eq_zero]
      simp
    have dropped : total (held packet) s.server.mSessionList = total (early packet) s.server.mSessionList ↔
        ∀ v ∈ s.server.mSessionList, held packet v = early packet v := by
      constructor
      · intro same v inside
        by_contra apart
        have retains : Retains packet v := by
          have := early_le_held (slots.exclusive inside) packet
          unfold Retains
          omega
        have := slots.retains inside retains
        omega
      · intro same
        exact congrArg List.sum (List.map_congr_left same)
    rw [← waits, ← dropped]
    omega

/-! ### A packet that the application gives up under its `WSASend` -/

def plainTraffic : Params := ⟨1000, false⟩

def freshTraffic : State := { server := Server.freshServer, pool := { object := fun _ => { memory := List.Vector.replicate _ 0 } } }

theorem freshTraffic_started : Started plainTraffic freshTraffic :=
  ⟨Server.freshServer_empty, ⟨rfl, rfl, fun _ => rfl⟩, ⟨fun _ => rfl, rfl⟩, fun _ _ => rfl⟩

def serverSteps (ls : List Server.Label) : List Label := ls.map (.server · 0)

/-- The first client is sent a packet with the number 7 in it, which the application then frees. -/
def sevenSent : List Label := [.alloc 0, .use 0 (.shiftLeft (.unsignedInt 7))] ++
  serverSteps (Server.firstClient ++ .call (.sendPacket (some 0)) 1 :: List.replicate 4 (.at 0 (.thread 1 .go))) ++
  List.replicate 4 (.prepare 0 1 3) ++ serverSteps (List.replicate 9 (.at 0 (.thread 1 .go)) ++ [.at 0 (.thread 1 .pending)]) ++
  [.free 0]

theorem sent_packet_stays_out : ∃ (tr : List (State × Label)) (s : State), tr.map Prod.snd = sevenSent ∧
    s.refs 0 = 0 ∧ 0 < s.pool.made ∧ 0 ∉ s.pool.freed := by
  have along : Along (traffic plainTraffic) (Owns plainTraffic) freshTraffic sevenSent := by decide +kernel
  obtain ⟨s, reached, run⟩ := Run.along (.init freshTraffic_started) along
  have facts : (exec (traffic plainTraffic) freshTraffic sevenSent).map (fun s => (s.refs 0,
      s.server.mSessionList.map fun v => v.sendIo)) = some (0, [[⟨1, [⟨0, 1⟩], .pending false⟩]]) := by decide +kernel
  rw [reached] at facts
  simp only [Option.map_some, Option.some.injEq, Prod.mk.injEq] at facts
  obtain ⟨gone, sends⟩ := facts
  have pending : [⟨1, [⟨0, 1⟩], .pending false⟩] ∈ s.server.mSessionList.map fun v => v.sendIo := by
    rw [sends]
    exact .head _
  obtain ⟨v, inside, is⟩ := List.mem_map.mp pending
  have uses : InUse s 0 := .sending v inside ⟨1, [⟨0, 1⟩], .pending false⟩ (by rw [is]; exact .head _) ⟨0, 1⟩ (.head _) rfl
  exact ⟨_, s, trace_labels reached, gone, (packets_outlive_their_uses run).1 0 uses⟩

end WanNet.Traffic
