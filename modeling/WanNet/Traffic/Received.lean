import WanNet.Traffic.Contents

/-!
What `OnReceive` gets: the packet that the worker has copied the frame to, with the payload in it.
-/

namespace WanNet.Session
open Serializer

theorem header_of_frame {frame : List RecvByte} (long : headerSize ≤ frame.length) :
    ∃ header, NetworkHeader.read (frame.map RecvByte.byte) = some header ∧ header.Length.toNat = headerLength frame ∧
      header.Length = UInt16.ofNat (headerLength frame) := by
  match frame, long with
  | code :: low :: high :: randKey :: checkSum :: rest, _ =>
    have low_lt := low.byte.toNat_lt
    have high_lt := high.byte.toNat_lt
    have length : (low.byte.toUInt16 + 256 * high.byte.toUInt16).toNat = low.byte.toNat + 256 * high.byte.toNat := by
      rw [UInt16.toNat_add, UInt16.toNat_mul, UInt8.toNat_toUInt16, UInt8.toNat_toUInt16]
      show (_ + 256 * _ % 2 ^ 16) % 2 ^ 16 = _
      omega
    have is : headerLength (code :: low :: high :: randKey :: checkSum :: rest) = low.byte.toNat + 256 * high.byte.toNat := rfl
    refine ⟨_, rfl, length.trans is.symm, ?_⟩
    rw [is, ← length, UInt16.ofNat_toNat]

theorem packetLoop_undecoded (max : Nat) (decode : List UInt8 → Bool) (rb : RingBuffer RecvByte) :
    packetLoop max decode rb =
      match packetLoop max (fun _ => true) rb with
      | .deliver frame rest => if decode (frame.map RecvByte.byte) then .deliver frame rest else .disconnect rest
      | turn => turn := by
  unfold packetLoop
  repeat' split
  all_goals simp_all

theorem next_recvLoop {cfg : Config} {s u : Slot} {role : Role} {ans : Answer} {pc : Pc} {frame : List RecvByte}
    {rest : RingBuffer RecvByte} (h : next cfg s role ans .recvLoop = some (u, pc))
    (turn : packetLoop cfg.mMaxPayloadLength cfg.decode s.RecvBuffer = .deliver frame rest) : pc = .onReceive frame := by
  cases next_moves h with
  | recvLoopWaits other => cases turn.symm.trans other
  | recvLoopEnds ring other => cases turn.symm.trans other
  | recvLoop taken ring other =>
    cases turn.symm.trans other
    rfl

theorem next_takes {cfg : Config} {s u : Slot} {role : Role} {ans : Answer} {pc : Pc} {frame : List RecvByte}
    (h : next cfg s role ans pc = some (u, .onReceive frame)) :
    pc = .recvLoop ∧ ∃ rest, packetLoop cfg.mMaxPayloadLength cfg.decode s.RecvBuffer = .deliver frame rest := by
  generalize is : Pc.onReceive frame = pc' at h
  cases next_moves h with
  | recvLoop taken ring turn =>
    cases is
    exact ⟨rfl, ring, turn⟩
  | decDecrement again | releasePush again => cases again <;> cases is
  | _ => cases is

end WanNet.Session

namespace WanNet.Traffic
open Transition Serializer RefPool Session Threads

variable {p : Params} {s s' : State} {v : Slot} {t : Thread} {ans : Answer} {key i j n packet : Nat} {q : Packet}
  {frame : List RecvByte}

/-! ### Packets that nobody else has -/

/-- The only reference on the packet is that of a worker on its way to `OnReceive`. -/
structure Alone (s : State) (n : Nat) : Prop where
  one : references (s.pool.object n) = 1
  waits : 0 < waiting s n

theorem Alone.unused (sole : Alone s n) (ledger : Ledger s) (slots : Server.Slots r s.server) : s.refs n = 0 ∧ ¬ Kept s n := by
  have counts := ledger.counts n
  have below := slots.early_le_held n
  have one := sole.one
  have waits := sole.waits
  unfold Kept
  omega

/-- A step leaves alone the packets that are in use, but for the one it is about. -/
theorem step_object {l : Label} (ledger : Ledger s) (h : step p s l = some s') (used : 0 < references (s.pool.object n))
    (apart : touched p (s, l) ≠ some n) : s'.pool.object n = s.pool.object n := by
  have taken (j : Nat) : n ≠ (s.pool.take j).1 := by
    intro here
    have := (ledger.sound.taken j).1
    rw [← here] at this
    omega
  cases l with
  | alloc j =>
    obtain rfl := Option.some.inj h
    exact (set_other _ _ (taken j)).trans (congrFun (take_object s.pool j) n)
  | free packet =>
    obtain rfl := Option.some.inj h
    show ((s.pool.drop references packet _).object n) = _
    rw [drop_object]
    exact set_other _ _ fun here => apart (congrArg some here.symm)
  | use packet call =>
    obtain ⟨_, -, rfl⟩ := Option.map_eq_some_iff.mp h
    exact set_other _ _ fun here => apart (congrArg some here.symm)
  | prepare key i rand =>
    obtain ⟨⟨v, t⟩, there, h⟩ := Option.bind_eq_some_iff.mp h
    obtain ⟨packet, is, h⟩ := Option.bind_eq_some_iff.mp h
    have other : n ≠ packet := by
      rintro rfl
      exact apart ((packetAt_of there).trans is)
    cases prepare_cases h with
    | tests => rfl
    | marks | writesHeader | encodes => exact set_other _ _ other
  | server l j =>
    obtain ⟨s₁, acted, h⟩ := Option.bind_eq_some_iff.mp h
    obtain ⟨server, -, rfl⟩ := Option.map_eq_some_iff.mp h
    show s₁.pool.object n = _
    cases act_cases acted with
    | retains packet incs decs =>
      refine set_other _ _ fun here => apart ?_
      rw [here]
      exact Option.or_eq_some_iff.mpr (.inl incs)
    | releases packet incs decs =>
      show ((s.pool.drop references packet _).object n) = _
      rw [drop_object]
      refine set_other _ _ fun here => apart ?_
      rw [here]
      exact Option.or_eq_some_iff.mpr (.inr ⟨incs, decs⟩)
    | copies key i ans v t is here at_ _ copied =>
      rcases copyFrame_cases copied with rfl | ⟨packet, pool, frame, rest, q, ok, took, -, -, how⟩
      · rfl
      · have other := taken j
        have object := congrFun (take_object s.pool j) n
        rw [took] at other object
        obtain ⟨-, rfl⟩ | ⟨-, rfl⟩ := how
        · exact (set_other _ _ other).trans object
        · show (((pool.set packet q).drop references packet _).object n) = _
          rw [drop_object, set_other _ _ other, set_other _ _ other]
          exact object
    | handsOver key i =>
      rcases handOver_cases s key i with same | ⟨c, -, -, -, same⟩
      all_goals
        rewrite [same]
        rfl
    | aside => rfl

/-- Nobody else gets at a packet that a worker is about to hand over. -/
theorem Alone.untouched {l : Label} (sole : Alone s n) (ledger : Ledger s) (slots : Server.Slots p.server s.server)
    (owns : Owns p s l) : touched p (s, l) ≠ some n := by
  obtain ⟨none, unkept⟩ := sole.unused ledger slots
  have unborrowed {key i : Nat} {v : Slot} {t : Thread} (there : threadAt s.server key i = some (v, t)) (is : incremented t = some n) : False := by
    obtain ⟨here, at_i⟩ := threadAt_some there
    have had := ledger.borrowed v (List.mem_of_getElem? here) t (List.mem_of_getElem? at_i) n (borrows_of_incremented is)
    omega
  intro touches
  cases l with
  | alloc j => cases touches
  | free packet =>
    obtain rfl := Option.some.inj touches
    have has := owns.1
    omega
  | use packet call =>
    obtain rfl := Option.some.inj touches
    have has : 0 < s.refs packet := owns
    omega
  | prepare key i rand =>
    obtain ⟨⟨v, t⟩, there, is⟩ := Option.bind_eq_some_iff.mp touches
    exact unborrowed there is
  | server l j =>
    rcases Option.or_eq_some_iff.mp touches with incs | ⟨-, decs⟩
    · obtain ⟨key, i, ans, v, t, -, there, is⟩ := threadAt_of_increment incs
      exact unborrowed there is
    · exact unkept (slots.retains_of_drop decs)

/-! ### Workers on their way to `OnReceive` -/

structure Filled (q : Packet) (frame : List RecvByte) : Prop where
  payload : ∃ payload, decode (frame.map RecvByte.byte) = some payload ∧ Represents q ⟨payload, 0⟩
  flag : q.mbSendPrepared = false
  one : references q = 1

/-- A worker that has a packet is at `OnReceive` with the frame that is in it, and one that is at
`OnReceive` has a packet. -/
structure Received (s : State) : Prop where
  filled : ∀ c ∈ s.copied, ∃ v t frame, threadAt s.server c.key c.thread = some (v, t) ∧ t.pc = .onReceive frame ∧
    Filled (s.pool.object c.packet) frame
  has : ∀ key i v t frame, threadAt s.server key i = some (v, t) → t.pc = .onReceive frame → ∃ c ∈ s.copied, c.key = key ∧ c.thread = i
  once : (s.copied.map fun c => (c.key, c.thread)).Nodup

theorem Received.alone (received : Received s) {c : Copied} (member : c ∈ s.copied) : Alone s c.packet := by
  obtain ⟨v, t, frame, -, -, filled⟩ := received.filled c member
  exact ⟨filled.one, List.count_pos_iff.mpr (List.mem_map_of_mem member)⟩

theorem Received.unique (received : Received s) {c c' : Copied} (member : c ∈ s.copied) (member' : c' ∈ s.copied)
    (same : c'.key = c.key ∧ c'.thread = c.thread) : c' = c := by
  refine List.inj_on_of_nodup_map received.once member' member ?_
  show (c'.key, c'.thread) = (c.key, c.thread)
  rw [same.1, same.2]

theorem Received.init (started : Started p s) : Received s := by
  have none := started.unused.2
  refine ⟨?_, fun key i v t frame there => ?_, ?_⟩
  · rw [none]
    intro c member
    cases member
  · obtain ⟨here, at_i⟩ := threadAt_some there
    rw [(started.server.1.slots v (List.mem_of_getElem? here)).1.idle.1] at at_i
    cases at_i
  · rw [none]
    exact List.nodup_nil

/-- A thread that has taken a step. -/
theorem thread_steps {r : Server.Params} {s s' : Server.NetServer} (h : Server.step r s (.at key (.thread i ans)) = some s')
    (there : threadAt s key i = some (v, t)) :
    ∃ v' u pc', threadAt s' key i = some (v', ⟨t.role, pc'⟩) ∧ next (r.config key) v t.role ans t.pc = some (u, pc') := by
  obtain ⟨here, at_i⟩ := threadAt_some there
  obtain ⟨x, w, u, here', taken, rfl, how⟩ := Server.step_at h
  obtain rfl := Option.some.inj (here.symm.trans here')
  obtain ⟨t', u', pc', at_i', advanced, rfl⟩ := step_thread taken
  obtain rfl := Option.some.inj (at_i.symm.trans at_i')
  have list : (u.put key { u' with threads := v.threads.set i ⟨t.role, pc'⟩ }).mSessionList =
      s.mSessionList.set key { u' with threads := v.threads.set i ⟨t.role, pc'⟩ } := by
    obtain ⟨rfl, -⟩ | ⟨_, _, x, -, -, rfl⟩ := how
    · rfl
    · show (Server.effect s v x.pc).mSessionList.set key _ = _
      rw [(Server.effect_same s v x.pc).1]
  refine ⟨{ u' with threads := v.threads.set i ⟨t.role, pc'⟩ }, u', pc', threadAt_eq ?_ (List.getElem?_set_self (List.getElem?_eq_some_iff.mp at_i).1), advanced⟩
  rw [list]
  exact List.getElem?_set_self (List.getElem?_eq_some_iff.mp here).1

/-- Every other thread stays where it is. -/
theorem thread_stays {r : Server.Params} {s s' : Server.NetServer} {l : Server.Label} (h : Server.step r s l = some s')
    (apart : ∀ ans, l ≠ .at key (.thread i ans)) (there : threadAt s key i = some (v, t)) :
    ∃ v', threadAt s' key i = some (v', t) := by
  obtain ⟨v', t', there', rfl | ⟨ans, u, pc', is, -⟩⟩ := thread_goes h there
  · exact ⟨v', there'⟩
  · exact absurd is (apart ans)

theorem thread_stayed {r : Server.Params} {s s' : Server.NetServer} {l : Server.Label} (h : Server.step r s l = some s')
    (apart : ∀ ans, l ≠ .at key (.thread i ans)) (there : threadAt s' key i = some (v, t)) (at_ : t.pc = .onReceive frame) :
    ∃ v, threadAt s key i = some (v, t) := by
  rcases thread_was h there with old | ⟨-, start⟩ | ⟨ans, v, t, u, pc', is, -⟩
  · exact old
  · rw [at_] at start
    cases start
  · exact absurd is (apart ans)

theorem act_effect (there : threadAt s.server key i = some (v, t)) : act p s (.at key (.thread i ans)) j = effect p s key i v t j := by
  simp [act, there]

/-! ### The steps of the server -/

/-- The packet has the frame exactly when the worker goes on to `OnReceive` with it. -/
theorem copyFrame_fills {s₁ : State} {rb : RingBuffer RecvByte} (fits : p.mMaxPayloadLength ≤ defaultSize)
    (unused : references (s.pool.object (s.pool.take j).1) = 0) (h : copyFrame p s key i rb j = some s₁) :
    (∃ frame rest packet, packetLoop p.mMaxPayloadLength decodes rb = .deliver frame rest ∧
        s₁.copied = s.copied ++ [⟨key, i, packet⟩] ∧ Filled (s₁.pool.object packet) frame) ∨
      s₁.copied = s.copied ∧ ∀ frame rest, packetLoop p.mMaxPayloadLength decodes rb ≠ .deliver frame rest := by
  rw [packetLoop_undecoded]
  unfold copyFrame at h
  cases turn : packetLoop p.mMaxPayloadLength (fun _ => true) rb with
  | deliver frame rest =>
    rw [turn] at h
    simp only at h ⊢
    have accepted := (packetLoop_accepts turn).1
    obtain ⟨header, read, length, is⟩ := header_of_frame accepted.complete.1
    have short : header.Length.toNat ≤ defaultSize := by
      have := accepted.header.2
      omega
    have whole : (frame.map RecvByte.byte).length = NetworkHeader.size + header.Length.toNat := by
      rw [List.length_map, length]
      exact accepted.complete.2
    obtain ⟨q, received, represents⟩ := Packet.receive_decodes (s.pool.object (s.pool.take j).1) read whole short
    rw [is] at received
    rw [received] at h
    simp only at h
    obtain rfl := Option.some.inj h
    cases decoded : decode (frame.map RecvByte.byte) with
    | some payload =>
      have good : decodes (frame.map RecvByte.byte) = true := congrArg Option.isSome decoded
      have one := references_received unused received
      obtain ⟨memory, rfl⟩ := Packet.receive_memory received
      rw [if_pos good]
      refine .inl ⟨frame, rest, (s.pool.take j).1, rfl, rfl, ?_⟩
      show Filled (((s.pool.take j).2.set _ _).object _) frame
      rw [set_self]
      exact ⟨⟨payload, decoded, represents payload decoded⟩, rfl, one⟩
    | none =>
      have bad : decodes (frame.map RecvByte.byte) = false := congrArg Option.isSome decoded
      rw [bad]
      exact .inr ⟨rfl, nofun⟩
  | disconnect | overrun | wait =>
    rw [turn] at h
    obtain rfl := Option.some.inj h
    exact .inr ⟨rfl, nofun⟩

/-- A step in which no worker copies or hands over a packet. -/
theorem Received.aside {s₁ : State} {l : Server.Label} {server : Server.NetServer} (received : Received s)
    (h : Server.step p.server s.server l = some server) (copied : s₁.copied = s.copied)
    (objects : ∀ c ∈ s.copied, s₁.pool.object c.packet = s.pool.object c.packet)
    (elsewhere : ∀ key i ans v t, l = .at key (.thread i ans) → threadAt s.server key i = some (v, t) →
      t.pc ≠ .recvLoop ∧ ∀ frame, t.pc ≠ .onReceive frame) : Received { s₁ with server := server } := by
  refine ⟨fun c member => ?_, fun key i v t frame there at_ => ?_, copied.symm ▸ received.once⟩
  · have member : c ∈ s.copied := copied ▸ member
    obtain ⟨v, t, frame, there, at_, filled⟩ := received.filled c member
    have apart (ans : Answer) : l ≠ .at c.key (.thread c.thread ans) := fun is => (elsewhere _ _ _ _ _ is there).2 frame at_
    obtain ⟨v', there'⟩ := thread_stays h apart there
    exact ⟨v', t, frame, there', at_, (objects c member).symm ▸ filled⟩
  · show ∃ c ∈ s₁.copied, _
    rw [copied]
    rcases thread_was h there with ⟨v, was⟩ | ⟨-, start⟩ | ⟨ans, v, t, u, pc', is, was, advanced, rfl⟩
    · exact received.has key i v t frame was at_
    · rw [at_] at start
      cases start
    · rw [show pc' = .onReceive frame from at_] at advanced
      exact absurd (next_takes advanced).1 (elsewhere _ _ _ _ _ is was).1

/-- A worker takes a frame off the ring, and its packet from the pool. -/
theorem Received.copies {s₁ : State} {server : Server.NetServer} (received : Received s) (ledger : Ledger s)
    (fits : p.mMaxPayloadLength ≤ defaultSize) (there : threadAt s.server key i = some (v, t)) (at_ : t.pc = .recvLoop)
    (copied : copyFrame p s key i v.RecvBuffer j = some s₁) (h : Server.step p.server s.server (.at key (.thread i ans)) = some server)
    (objects : ∀ c ∈ s.copied, s₁.pool.object c.packet = s.pool.object c.packet) : Received { s₁ with server := server } := by
  obtain ⟨v', u, pc', there', advanced⟩ := thread_steps h there
  have apart {c : Copied} (member : c ∈ s.copied) : ¬ (c.key = key ∧ c.thread = i) := by
    rintro ⟨rfl, rfl⟩
    obtain ⟨v', t', frame, there', at_', -⟩ := received.filled c member
    obtain ⟨rfl, rfl⟩ := Prod.mk.inj (Option.some.inj (there.symm.trans there'))
    cases at_.symm.trans at_'
  have others {c : Copied} (member : c ∈ s.copied) : ∃ v t frame, threadAt server c.key c.thread = some (v, t) ∧
      t.pc = .onReceive frame ∧ Filled (s₁.pool.object c.packet) frame := by
    obtain ⟨v, t, frame, was, at_, filled⟩ := received.filled c member
    obtain ⟨v', now⟩ := thread_stays h (fun ans is => by
      cases is
      exact apart member ⟨rfl, rfl⟩) was
    exact ⟨v', t, frame, now, at_, (objects c member).symm ▸ filled⟩
  have into : p.server.config key = ⟨key, p.mMaxPayloadLength, decodes, p.countsLater, false⟩ := rfl
  rw [at_, into] at advanced
  have before {key' i' : Nat} {v' : Slot} {t' : Thread} {frame : List RecvByte} (now : threadAt server key' i' = some (v', t'))
      (at_' : t'.pc = .onReceive frame) (other : ¬ (key' = key ∧ i' = i)) : ∃ c ∈ s.copied, c.key = key' ∧ c.thread = i' := by
    obtain ⟨w, was⟩ := thread_stayed h (fun ans is => by
      cases is
      exact other ⟨rfl, rfl⟩) now at_'
    exact received.has key' i' w t' frame was at_'
  rcases copyFrame_fills fits (ledger.sound.taken j).1 copied with ⟨frame, rest, packet, turn, more, filled⟩ | ⟨same, none⟩
  · obtain rfl := next_recvLoop advanced turn
    refine ⟨fun c member => ?_, fun key' i' w t' frame' now at_' => ?_, ?_⟩
    · have member : c ∈ s.copied ++ [(⟨key, i, packet⟩ : Copied)] := more ▸ member
      rcases List.mem_append.mp member with old | new
      · exact others old
      · obtain rfl := List.mem_singleton.mp new
        exact ⟨v', _, frame, there', rfl, filled⟩
    · show ∃ c ∈ s₁.copied, _
      rw [more]
      by_cases here : key' = key ∧ i' = i
      · obtain ⟨rfl, rfl⟩ := here
        exact ⟨_, List.mem_append_right _ (.head _), rfl, rfl⟩
      · obtain ⟨c, member, is⟩ := before now at_' here
        exact ⟨c, List.mem_append_left _ member, is⟩
    · show (s₁.copied.map fun c => (c.key, c.thread)).Nodup
      rw [more, List.map_append, List.nodup_append]
      refine ⟨received.once, List.nodup_singleton _, fun a old b new => ?_⟩
      obtain ⟨c, member, rfl⟩ := List.mem_map.mp old
      obtain rfl := List.mem_singleton.mp new
      intro is
      exact apart member ⟨(Prod.mk.inj is).1, (Prod.mk.inj is).2⟩
  · refine ⟨fun c member => others (same ▸ member), fun key' i' w t' frame now at_' => ?_, same.symm ▸ received.once⟩
    show ∃ c ∈ s₁.copied, _
    rw [same]
    refine before now at_' ?_
    rintro ⟨rfl, rfl⟩
    obtain ⟨rfl, rfl⟩ := Prod.mk.inj (Option.some.inj (there'.symm.trans now))
    rw [show pc' = .onReceive frame from at_'] at advanced
    obtain ⟨-, rest, turn⟩ := next_takes advanced
    exact none frame rest turn

/-- `OnReceive` gets the packet with the frame in it. -/
theorem Received.gives (received : Received s) (there : threadAt s.server key i = some (v, t)) (at_ : t.pc = .onReceive frame) :
    ∃ c ∈ s.copied, c.key = key ∧ c.thread = i ∧ Filled (s.pool.object c.packet) frame ∧
      handOver s key i = { s with copied := s.copied.erase c }.grant c.packet := by
  obtain ⟨c, member, rfl, rfl⟩ := received.has key i v t frame there at_
  obtain ⟨v', t', frame', there', at_', filled⟩ := received.filled c member
  obtain ⟨rfl, rfl⟩ := Prod.mk.inj (Option.some.inj (there.symm.trans there'))
  obtain rfl := Pc.onReceive.inj (at_.symm.trans at_')
  refine ⟨c, member, rfl, rfl, filled, ?_⟩
  unfold handOver
  cases found : s.copied.find? (fun c' => c'.key = c.key ∧ c'.thread = c.thread) with
  | some c' =>
    have is := List.find?_some found
    simp only [decide_eq_true_eq] at is
    obtain rfl := received.unique member (List.mem_of_find?_eq_some found) is
    rfl
  | none =>
    have other := List.find?_eq_none.mp found c member
    simp at other

/-- A worker calls `OnReceive`. -/
theorem Received.handsOver {server : Server.NetServer} (received : Received s) (there : threadAt s.server key i = some (v, t))
    (at_ : t.pc = .onReceive frame) (h : Server.step p.server s.server (.at key (.thread i ans)) = some server) :
    Received { handOver s key i with server := server } := by
  obtain ⟨c, member, of, by_, -, given⟩ := received.gives there at_
  obtain ⟨v', u, pc', there', advanced⟩ := thread_steps h there
  have gone {c' : Copied} (left : c' ∈ s.copied.erase c) : c' ∈ s.copied ∧ ¬ (c'.key = key ∧ c'.thread = i) := by
    have nodup : s.copied.Nodup := received.once.of_map _
    obtain ⟨apart, old⟩ := (nodup.mem_erase_iff).mp left
    refine ⟨old, fun same => apart (received.unique member old ?_)⟩
    rw [of, by_]
    exact same
  rw [given]
  refine ⟨fun c' left => ?_, fun key' i' w t' frame' now at_' => ?_, ?_⟩
  · obtain ⟨old, other⟩ := gone left
    obtain ⟨v, t, frame, was, at_, filled⟩ := received.filled c' old
    obtain ⟨v', now⟩ := thread_stays h (fun ans is => by
      cases is
      exact other ⟨rfl, rfl⟩) was
    exact ⟨v', t, frame, now, at_, filled⟩
  · have other : ¬ (key' = key ∧ i' = i) := by
      rintro ⟨rfl, rfl⟩
      obtain ⟨rfl, rfl⟩ := Prod.mk.inj (Option.some.inj (there'.symm.trans now))
      rw [show pc' = .onReceive frame' from at_'] at advanced
      cases at_.symm.trans (next_takes advanced).1
    obtain ⟨w', was⟩ := thread_stayed h (fun ans is => by
      cases is
      exact other ⟨rfl, rfl⟩) now at_'
    obtain ⟨c', old, is⟩ := received.has key' i' w' t' frame' was at_'
    refine ⟨c', (List.mem_erase_of_ne ?_).mpr old, is⟩
    rintro rfl
    exact other ⟨is.1.symm.trans of, is.2.symm.trans by_⟩
  · exact received.once.sublist (List.erase_sublist.map _)

/-! ### Runs -/

theorem effect_copied (h : effect p s key i v t j = some s') (ahead : t.pc ≠ .recvLoop) (elsewhere : ∀ frame, t.pc ≠ .onReceive frame) :
    s'.copied = s.copied := by
  unfold effect at h
  split at h
  next =>
    split at h
    · obtain rfl := Option.some.inj h
      cases incremented t <;> rfl
    · cases h
  next here => exact absurd here ahead
  next frame here => exact absurd here (elsewhere frame)
  next =>
    obtain rfl := Option.some.inj h
    cases decremented (p.server.config key) v t.pc <;> rfl

theorem Received.congr (received : Received s) (server : s'.server = s.server) (copied : s'.copied = s.copied)
    (objects : ∀ c ∈ s.copied, s'.pool.object c.packet = s.pool.object c.packet) : Received s' := by
  refine ⟨?_, ?_, copied.symm ▸ received.once⟩
  · rw [copied, server]
    intro c member
    obtain ⟨v, t, frame, there, at_, filled⟩ := received.filled c member
    exact ⟨v, t, frame, there, at_, (objects c member).symm ▸ filled⟩
  · rw [copied, server]
    exact received.has

theorem Received.step {l : Label} (received : Received s) (ledger : Ledger s) (slots : Server.Slots p.server s.server)
    (fits : p.mMaxPayloadLength ≤ defaultSize) (owns : Owns p s l) (h : step p s l = some s') : Received s' := by
  have objects (c : Copied) (member : c ∈ s.copied) : s'.pool.object c.packet = s.pool.object c.packet := by
    have sole := received.alone member
    refine step_object ledger h ?_ (sole.untouched ledger slots owns)
    rw [sole.one]
    exact Nat.one_pos
  cases l with
  | alloc j | free packet =>
    obtain rfl := Option.some.inj h
    exact received.congr rfl rfl objects
  | use packet call =>
    obtain ⟨_, -, rfl⟩ := Option.map_eq_some_iff.mp h
    exact received.congr rfl rfl objects
  | prepare key i rand =>
    obtain ⟨_, -, h⟩ := Option.bind_eq_some_iff.mp h
    obtain ⟨_, -, h⟩ := Option.bind_eq_some_iff.mp h
    cases prepare_cases h <;> exact received.congr rfl rfl objects
  | server l j =>
    obtain ⟨s₁, acted, h⟩ := Option.bind_eq_some_iff.mp h
    obtain ⟨server, taken, rfl⟩ := Option.map_eq_some_iff.mp h
    by_cases thread : ∃ key i ans, l = .at key (.thread i ans)
    · obtain ⟨key, i, ans, rfl⟩ := thread
      obtain ⟨⟨v, t⟩, there, effected⟩ := Option.bind_eq_some_iff.mp acted
      by_cases ahead : t.pc = .recvLoop
      · rw [act_effect there] at acted
        unfold effect at acted
        rw [ahead] at acted
        exact received.copies ledger fits there ahead acted taken objects
      · by_cases handing : ∃ frame, t.pc = .onReceive frame
        · obtain ⟨frame, handing⟩ := handing
          rw [act_effect there] at acted
          unfold effect at acted
          rw [handing] at acted
          obtain rfl := Option.some.inj acted
          exact received.handsOver there handing taken
        · have elsewhere (frame : List RecvByte) : t.pc ≠ .onReceive frame := fun here => handing ⟨frame, here⟩
          refine received.aside taken (effect_copied effected ahead elsewhere) objects fun key' i' ans' v' t' is there' => ?_
          cases is
          obtain ⟨rfl, rfl⟩ := Prod.mk.inj (Option.some.inj (there.symm.trans there'))
          exact ⟨ahead, elsewhere⟩
    · have same : s₁ = s := by
        unfold act at acted
        split at acted
        next => exact absurd ⟨_, _, _, rfl⟩ thread
        · exact (Option.some.inj acted).symm
      subst same
      exact received.aside taken rfl objects fun key i ans v t is => absurd ⟨key, i, ans, is⟩ thread

theorem run_received (fits : p.mMaxPayloadLength ≤ defaultSize) (run : Run (traffic p) (Owns p) tr s) : Received s :=
  run.invariant (I := fun _ s => Received s) (fun _ started => .init started) fun _ _ _ _ before received owns h =>
    received.step (run_ledger before) (run_slots before) fits owns h

/-- Within the limit of a packet no copy overruns, so a turn of the loop can be taken. -/
theorem next_recvLoop {cfg : Config} (fits : cfg.mMaxPayloadLength ≤ defaultSize) (role : Role) (ans : Answer) :
    ∃ r, next cfg v role ans .recvLoop = some r := by
  have spec := beginning_spec cfg.mMaxPayloadLength cfg.decode v.RecvBuffer.contents
  simp only [next, packetLoop_beginning]
  cases is : beginning cfg.mMaxPayloadLength cfg.decode v.RecvBuffer.contents with
  | overrun n =>
    rw [is] at spec
    obtain ⟨-, -, whole, unfit⟩ := spec
    exact absurd (Nat.le_trans whole.2.2 fits) unfit
  | part =>
    by_cases full : v.RecvBuffer.getFreeSize ≤ 0 <;> simp [full]
  | short | badHeader | refused | frame => exact ⟨_, rfl⟩

end WanNet.Traffic
