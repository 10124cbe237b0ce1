import WanNet.EchoServer.Discipline

/-!
What the clients of `EchoServer` get back.
-/

namespace WanNet.EchoServer
open Transition Serializer Traffic Threads

variable {p : Params} {s s' : State} {h x : Handler} {v v' u : Session.Slot} {t : Session.Thread} {key i j n w : Nat}
  {cfg : Session.Config} {role : Session.Role} {ans : Session.Answer} {pc pc' : Session.Pc}

/-! ### Sessions that are only sent to -/

def OnlySends : Server.Label → Prop
  | .call request _ => ∃ packet, request = .sendPacket packet
  | _ => True

theorem receptive_step {m m' : Server.NetServer} {l : Server.Label}
    (receptive : ∀ (key : Nat) (v : Session.Slot), m.mSessionList[key]? = some v → Session.Receptive v)
    (counts : ∀ (key : Nat) (v : Session.Slot), m.mSessionList[key]? = some v → Session.Counts (p.server.config key) v)
    (few : Server.FewEach p.server m l) (opening : Server.Opening m l)
    (known : ∀ (key : Nat) (v : Session.Slot), m.mSessionList[key]? = some v → v.accepted ≤ m.mSessionAcceptedCount)
    (only : OnlySends l) (h : Server.step p.server m l = some m') (here : m'.mSessionList[key]? = some v) : Session.Receptive v := by
  by_cases calls : ∃ request sessionID, l = .call request sessionID
  · obtain ⟨request, sessionID, rfl⟩ := calls
    obtain ⟨packet, rfl⟩ := only
    obtain ⟨rfl, -⟩ | ⟨call, k, w, w', is, -, was, joined, rfl⟩ := Server.step_call h
    · exact receptive key v here
    · rcases at_set here with ⟨rfl, rfl⟩ | ⟨-, old⟩
      · obtain ⟨packet, rfl⟩ : ∃ packet, call = .sendPacket packet := by
          cases packet with
          | none => cases is
          | some packet => exact ⟨packet, (Option.some.inj is).symm⟩
        have only : Session.OnlySends (.call (.sendPacket packet) sessionID) := ⟨packet, rfl⟩
        exact (receptive key w was).step_outside only joined (by simp)
      · exact receptive key v old
  · rcases Server.slot_steps few opening known h with ⟨same, -⟩ | ⟨k, w, w', l', slot, kind⟩
    · rw [same] at here
      exact receptive key v here
    · rw [slot.list] at here
      rcases at_set here with ⟨rfl, rfl⟩ | ⟨-, old⟩
      · refine (receptive key w slot.here).step (counts key w slot.here) slot.bounded.1 ?_ slot.taken
        cases kind with
        | «at» l clients noaccept =>
          cases l' with
          | call call sessionID => cases h
          | _ => trivial
        | call request call sessionID clients => exact absurd ⟨request, sessionID, rfl⟩ calls
        | accept => trivial
      · exact receptive key v old

/-! ### Packets that are still to be enqueued -/

/-- What a call of `OnReceive` has not got into its session's `SendQueue` yet. -/
def unsent (s : Server.NetServer) (h : Handler) : Bool :=
  match h.pc with
  | .sendPacket => true
  | .sending key i => (threadAt s key i).elim false fun x => Session.queues x.2.pc
  | .free => false

/-- Its payload, if its session has the socket. -/
def due (s : Server.NetServer) (w : Nat) (h : Handler) : Option (List UInt8) :=
  if h.socket = w ∧ unsent s h = true then some h.payload else none

/-- What has come in on a socket is what has been enqueued for its session, and then what is still to be. -/
structure Echoed (s : State) : Prop where
  receptive : ∀ (key : Nat) (v : Session.Slot), s.server.mSessionList[key]? = some v → Session.Receptive v
  echoes : ∀ w, (Session.packets (s.net.news w)).map decode =
    ((s.net.net.outbox w).enqueued ++ s.handlers.filterMap (due s.server w)).map some

theorem Echoed.init (started : Started p s) : Echoed s := by
  obtain ⟨net, none⟩ := started
  refine ⟨fun key v here => .init (net.net.server.server.1.slots v (List.mem_of_getElem? here)).1, fun w => ?_⟩
  rw [none, net.unused.2.2.2.2, net.net.unused.2.2]
  rfl

theorem next_queues (h : Session.next cfg v role ans pc = some (u, pc')) (before : Session.queues pc' = true) : Session.queues pc = true := by
  cases Session.next_moves h with
  | callDisconnected | callRegistered | callReleased => rfl
  | decDecrement again | releasePush again => cases again <;> cases before
  | _ => first | rfl | cases before

theorem next_enqueued (h : Session.next cfg v role ans .callEnqueue = some (u, pc')) : Session.queues pc' = false := by
  generalize is : Session.Pc.callEnqueue = pc at h
  cases Session.next_moves h with
  | callEnqueueShows | callEnqueue => rfl
  | _ => cases is

/-! ### What a step tells -/

theorem packets_quiet {l : Session.Label} (sessionID : Nat) (ahead : ∀ i ans t frame, l = .thread i ans → v.threads[i]? = some t → t.pc ≠ .onReceive frame) :
    Session.packets (Session.ofSession sessionID (Session.happening v l)).toList = [] := by
  cases happens : Session.happening v l with
  | none => rfl
  | some e =>
    obtain ⟨other, e⟩ := e
    by_cases mine : other = sessionID
    · subst mine
      rw [Session.ofSession_self]
      cases e with
      | receiveBegins packet =>
        obtain ⟨i, ans, t, frame, is, at_i, at_, -⟩ := Session.happening_packet happens
        exact absurd at_ (ahead i ans t frame is at_i)
      | _ => rfl
    · rw [Session.ofSession_other mine]
      rfl

theorem news_quiet {l : Duplex.Label} {net : Duplex.State} (h : Duplex.step p s.net l = some net)
    (ahead : ∀ key i ans j peer v t frame, l = .net (.server (.server (.at key (.thread i ans)) j) peer) →
      threadAt s.server key i = some (v, t) → t.pc ≠ .onReceive frame) (w : Nat) :
    Session.packets (net.news w) = Session.packets (s.net.news w) := by
  cases l with
  | sendPacket k packet =>
    obtain rfl | ⟨q, -, rfl⟩ := Duplex.step_sendPacket h
    · rfl
    · rfl
  | sender k i rand ok =>
    obtain ⟨x, packet, pc, -, -, rfl⟩ := Duplex.step_sender h
    rfl
  | net l =>
    obtain ⟨-, after, -, rfl⟩ := Duplex.step_net h
    show Session.packets (Duplex.report p s.net l w) = _
    unfold Duplex.report
    split
    next key v l' slot =>
      split
      · rw [Session.packets_append, packets_quiet, List.append_nil]
        intro i ans t frame is at_i
        subst is
        unfold Duplex.slotOf at slot
        split at slot
        next k l j peer =>
          obtain ⟨v₀, here, is⟩ := Option.map_eq_some_iff.mp slot
          obtain ⟨rfl, rfl, rfl⟩ : k = key ∧ v₀ = v ∧ l = .thread i ans := by simpa using is
          exact ahead k i ans j peer v₀ t frame rfl (threadAt_eq here at_i)
        · cases slot
      · rfl
    · rfl

theorem news_delivers {l : Duplex.Label} {net : Duplex.State} {frame : List Session.RecvByte} (known : Known p s.net)
    (delivers : Delivers s l h v t frame) (taken : Duplex.step p s.net l = some net) (w : Nat) :
    Session.packets (net.news w) = Session.packets (s.net.news w) ++ if w = h.socket then [frame.map Session.RecvByte.byte] else [] := by
  obtain ⟨⟨ans, j, peer, rfl⟩, there, at_, -, -, -, -, ⟨-, sock⟩, -⟩ := delivers
  have works := known.works there (by rw [at_]; exact Nat.one_pos)
  obtain ⟨here, at_i⟩ := threadAt_some there
  obtain ⟨-, after, -, rfl⟩ := Duplex.step_net taken
  have here : s.net.net.server.server.mSessionList[h.key]? = some v := here
  have happens : Session.happening v (.thread h.thread ans) = some (v.ID, .receiveBegins (frame.map Session.RecvByte.byte)) := by
    rw [Session.happening, at_i, Option.bind_some, at_]
    rfl
  show Session.packets (Duplex.report p s.net _ w) = _
  simp only [Duplex.report, Duplex.slotOf, here, Option.map_some]
  rw [happens, ← works.id, Session.ofSession_self, sock]
  by_cases own : w = v.acceptedSocket
  · rw [if_pos ⟨works.begun.1, own⟩, if_pos own, Session.packets_append]
    rfl
  · rw [if_neg fun is => own is.2, if_neg own, List.append_nil]

theorem thread_enqueued {α : Type} (tells : Session.Queued → α) (O : Session.Outbox α) (ans : Session.Answer) (noenqueue : t.pc ≠ .callEnqueue) :
    (O.thread tells t ans).enqueued = O.enqueued := by
  obtain ⟨role, pc⟩ := t
  cases pc with
  | callEnqueue => exact absurd rfl noenqueue
  | wsaSend wsabuf => cases ans <;> rfl
  | _ => rfl

theorem enqueued_quiet {l : Duplex.Label} {net : Duplex.State} (h : Duplex.step p s.net l = some net)
    (ahead : ∀ key i ans j peer v t, l = .net (.server (.server (.at key (.thread i ans)) j) peer) →
      threadAt s.server key i = some (v, t) → t.pc ≠ .callEnqueue) (w : Nat) :
    (net.net.outbox w).enqueued = (s.net.net.outbox w).enqueued := by
  cases l with
  | sendPacket k packet =>
    obtain rfl | ⟨q, -, rfl⟩ := Duplex.step_sendPacket h
    · rfl
    · rfl
  | sender k i rand ok =>
    obtain ⟨x, packet, pc, -, -, rfl⟩ := Duplex.step_sender h
    rfl
  | net l =>
    obtain ⟨-, after, taken, rfl⟩ := Duplex.step_net h
    cases l with
    | client k l =>
      obtain ⟨-, c, -, rfl⟩ := Network.step_client taken
      rfl
    | server tl peer =>
      obtain ⟨-, server, served, rfl⟩ := Network.step_server taken
      show (Network.record s.net.net tl w).enqueued = _
      unfold Network.record
      split
      next key l j =>
        split
        next v here =>
          split
          · cases l with
            | accept count sock address => cases served
            | thread i ans =>
              show ((v.threads[i]?).elim _ _ : Session.Outbox _).enqueued = _
              cases at_i : v.threads[i]? with
              | none => rfl
              | some t => exact thread_enqueued _ _ ans (ahead key i ans j peer v t rfl (threadAt_eq here at_i))
            | _ => rfl
          · rfl
        · rfl
      · rfl

/-- An `Enqueue` of a call of `SendPacket`. -/
theorem enqueued_sends {net : Duplex.State} {peer : Network.Peer} {sessionID : Nat} (there : threadAt s.server key i = some (v, t))
    (sends : t.role = .api (.sendPacket n) sessionID) (at_ : t.pc = .callEnqueue)
    (taken : Duplex.step p s.net (.net (.server (.server (.at key (.thread i ans)) j) peer)) = some net) (w : Nat) :
    (net.net.outbox w).enqueued = (s.net.net.outbox w).enqueued ++ if w = v.acceptedSocket then [s.traffic.payload n] else [] := by
  obtain ⟨-, after, moved, rfl⟩ := Duplex.step_net taken
  obtain ⟨-, server, -, rfl⟩ := Network.step_server moved
  obtain ⟨here, at_i⟩ := threadAt_some there
  have here : s.net.net.server.server.mSessionList[key]? = some v := here
  show (Network.record s.net.net _ w).enqueued = _
  simp only [Network.record, here]
  by_cases own : w = v.acceptedSocket
  · rw [if_pos own, if_pos own]
    simp only [Session.Outbox.add, at_i, Option.elim_some, Session.Outbox.thread, at_, sends]
    rfl
  · rw [if_neg own, if_neg own, List.append_nil]

/-! ### Steps -/

/-- What a step of the server is that the sessions stay with. -/
def Admits (p : Params) (s : Traffic.State) (l : Traffic.Label) : Prop :=
  ∀ sl j, l = .server sl j → Server.FewEach p.server s.server sl ∧ Server.Opening s.server sl ∧ OnlySends sl

theorem Echoed.receives {l : Traffic.Label} {after : Traffic.State} (echoed : Echoed s) (known : Known p s.net) (admits : Admits p s.traffic l)
    (taken : Traffic.step p s.traffic l = some after) (here : after.server.mSessionList[key]? = some v) : Session.Receptive v := by
  rcases step_server taken with ⟨same, -⟩ | ⟨sl, j, rfl, served⟩
  · rw [same] at here
    exact echoed.receptive key v here
  · obtain ⟨few, opening, only⟩ := admits sl j rfl
    exact receptive_step echoed.receptive (fun _ _ here => (known.slot here).1) few opening known.inbox.known only served here

/-- A packet that a call has, and has not enqueued in the step, is due after it when it was before. -/
theorem Echoed.unsent_stays {l : Traffic.Label} {after : Traffic.State} (echoed : Echoed s) (serving : Serving p s) (known : Known p s.net)
    (admits : Admits p s.traffic l) (member : x ∈ s.handlers) (taken : Traffic.step p s.traffic l = some after)
    (ahead : ∀ key i ans j v t, l = .server (.at key (.thread i ans)) j → x.pc = .sending key i → threadAt s.server key i = some (v, t) →
      t.pc ≠ .callEnqueue) : unsent after.server x = unsent s.server x := by
  obtain ⟨⟨v₁, t₁, there₁, at₁, -, is⟩, doing⟩ := serving.serves x member
  unfold Doing at doing
  unfold unsent
  cases at_ : x.pc with
  | sendPacket | free => rfl
  | sending key i =>
    rw [at_] at doing
    obtain ⟨rfl, v, t, there, role, -, -⟩ := doing
    have there : threadAt s.server x.key i = some (v, t) := there
    obtain ⟨here, at_i⟩ := threadAt_some there
    by_cases steps : ∃ ans j, l = .server (.at x.key (.thread i ans)) j
    · obtain ⟨ans, j, rfl⟩ := steps
      obtain ⟨few, opening, -⟩ := admits _ j rfl
      obtain ⟨_, -, taken⟩ := Option.bind_eq_some_iff.mp taken
      obtain ⟨server, served, rfl⟩ := Option.map_eq_some_iff.mp taken
      rcases Server.slot_steps few opening known.inbox.known served with ⟨-, -, -, none⟩ | ⟨k, w, w', l', slot, kind⟩
      · exact absurd rfl (none _ _)
      cases kind
      obtain rfl := Option.some.inj (here.symm.trans slot.here)
      obtain ⟨here₁, inside⟩ := threadAt_some there₁
      obtain rfl := Option.some.inj (here.symm.trans here₁)
      have bounded := slot.bounded.1 _ slot.taken
      obtain ⟨t', u, pc', at_i', advanced, rfl⟩ := Session.step_thread slot.taken
      obtain rfl := Option.some.inj (at_i.symm.trans at_i')
      obtain ⟨z, there'⟩ : ∃ z, threadAt server x.key i = some (z, ⟨t.role, pc'⟩) := by
        refine ⟨{ u with threads := v.threads.set i ⟨t.role, pc'⟩ }, threadAt_eq ?_ (List.getElem?_set_self (List.getElem?_eq_some_iff.mp at_i).1)⟩
        rw [slot.list]
        exact List.getElem?_set_self (List.getElem?_eq_some_iff.mp here).1
      simp only [there, there', Option.elim_some]
      cases before : Session.queues t.pc with
      | false =>
        refine Bool.eq_false_iff.mpr fun after => ?_
        rw [next_queues advanced after] at before
        cases before
      | true =>
        have works := known.works there₁ (by rw [at₁]; exact Nat.one_pos)
        have counts := (known.slot here).1
        rw [is, ← works.id] at role
        exact (echoed.receptive x.key v here).proceeds counts (known.slots.exclusive (List.mem_of_getElem? here)) (List.mem_of_getElem? inside)
          (by rw [at₁]; exact Nat.one_pos) at_i role bounded advanced before (ahead x.key i ans j v t rfl at_ there)
    · obtain ⟨v', there'⟩ := thread_still taken (fun ans j is => steps ⟨ans, j, is⟩) there
      simp only [there, there', Option.elim_some]

/-- As for a step of the network. -/
theorem Echoed.unsent_still {l : Duplex.Label} {net : Duplex.State} (echoed : Echoed s) (serving : Serving p s) (known : Known p s.net)
    (admits : ∀ tl peer, l = .net (.server tl peer) → Admits p s.traffic tl) (member : x ∈ s.handlers) (taken : Duplex.step p s.net l = some net)
    (ahead : ∀ key i ans j peer v t, l = .net (.server (.server (.at key (.thread i ans)) j) peer) → x.pc = .sending key i →
      threadAt s.server key i = some (v, t) → t.pc ≠ .callEnqueue) : unsent net.net.server.server x = unsent s.server x := by
  rcases traffic_step taken with ⟨same, -⟩ | ⟨tl, peer, rfl, moved⟩
  · rw [same]
    rfl
  · exact echoed.unsent_stays serving known (admits tl peer rfl) member moved fun key i ans j v t is => ahead key i ans j peer v t (by rw [is])

theorem due_same {server server' : Server.NetServer} (same : unsent server' x = unsent server x) (w : Nat) : due server' w x = due server w x := by
  unfold due
  rw [same]

theorem due_other {server : Server.NetServer} (other : x.socket ≠ w) : due server w x = none := if_neg fun is => other is.1

theorem due_sent {server : Server.NetServer} (sent : unsent server x = false) (w : Nat) : due server w x = none := by
  refine if_neg fun is => ?_
  rw [sent] at is
  cases is.2

/-- One call at most is about a socket. -/
theorem filterMap_due {handlers : List Handler} {server : Server.NetServer} (apart : (handlers.map Handler.socket).Nodup) (member : h ∈ handlers) :
    handlers.filterMap (due server h.socket) = (due server h.socket h).toList := by
  obtain ⟨before, after, rfl⟩ := List.append_of_mem member
  have others (x : Handler) (inside : x ∈ before ++ after) : due server h.socket x = none := by
    refine due_other fun same => ?_
    rw [List.map_append, List.map_cons, List.nodup_middle, List.nodup_cons, ← List.map_append] at apart
    exact apart.1 (same ▸ List.mem_map_of_mem inside)
  have none {handlers : List Handler} (each : ∀ x ∈ handlers, due server h.socket x = none) :
      handlers.filterMap (due server h.socket) = [] := List.filterMap_eq_nil_iff.mpr each
  rw [List.filterMap_append, none fun x inside => others x (List.mem_append_left _ inside), List.nil_append, List.filterMap_cons,
    none fun x inside => others x (List.mem_append_right _ inside)]
  cases due server h.socket h <;> rfl

/-! What happens but for what `OnReceive` does. -/

theorem Serving.admits {l : Duplex.Label} (quiet : applies l = false) (fair : Fair p s.net l) (tl : Traffic.Label) (peer : Network.Peer)
    (is : l = .net (.server tl peer)) : Admits p s.traffic tl := by
  subst is
  rintro sl j rfl
  obtain ⟨few, -, opening⟩ := fair
  refine ⟨few, opening, ?_⟩
  cases sl with
  | call request sessionID => cases quiet
  | _ => trivial

theorem Serving.sender_alone (serving : Serving p s) (member : h ∈ s.handlers) (member' : x ∈ s.handlers) (sends : h.pc = .sending key i)
    (sends' : x.pc = .sending key i) : x = h := by
  have doing := (serving.serves h member).does
  have doing' := (serving.serves x member').does
  unfold Doing at doing doing'
  rw [sends] at doing
  rw [sends'] at doing'
  obtain ⟨-, v, t, there, role, -⟩ := doing
  obtain ⟨-, v', t', there', role', -⟩ := doing'
  obtain ⟨rfl, rfl⟩ := Prod.mk.inj (Option.some.inj (there.symm.trans there'))
  refine List.inj_on_of_nodup_map serving.packets member' member ?_
  exact Session.Call.sendPacket.inj (Session.Role.api.inj (role'.symm.trans role)).1

/-- Who calls `Enqueue`, and with what. -/
theorem Serving.enqueues {net : Duplex.State} {peer : Network.Peer} (serving : Serving p s)
    (taken : Duplex.step p s.net (.net (.server (.server (.at key (.thread i ans)) j) peer)) = some net)
    (there : threadAt s.server key i = some (v, t)) (at_ : t.pc = .callEnqueue) :
    ∃ h ∈ s.handlers, h.pc = .sending key i ∧ t.role = .api (.sendPacket h.packet) h.sessionID ∧ h.socket = v.acceptedSocket ∧
      s.traffic.payload h.packet = h.payload ∧ unsent s.server h = true ∧ unsent net.net.server.server h = false := by
  obtain ⟨-, none⟩ | ⟨tl, peer', same, moved⟩ := traffic_step taken
  · exact absurd rfl (none _ peer)
  cases same
  obtain ⟨s₁, -, moved⟩ := Option.bind_eq_some_iff.mp moved
  obtain ⟨server, served, moved⟩ := Option.map_eq_some_iff.mp moved
  have server_is : net.net.server.server = server := by rw [← moved]
  obtain ⟨v', u, pc', there', advanced⟩ := thread_steps served there
  rw [at_] at advanced
  have running : t.pc ≠ .finished := by
    rw [at_]
    simp
  obtain ⟨call, sessionID, role⟩ : ∃ call sessionID, t.role = .api call sessionID := by
    generalize is : Session.Pc.callEnqueue = pc at advanced
    cases Session.next_moves advanced with
    | callEnqueueShows packet sessionID sends | callEnqueue packet sessionID sends => exact sends.elim (fun is => ⟨_, _, is⟩) fun is => ⟨_, _, is⟩
    | _ => cases is
  obtain ⟨h, member, sends, -⟩ := serving.calls key i v t call sessionID there role running
  obtain ⟨⟨v₁, t₁, there₁, -, sock, -⟩, doing⟩ := serving.serves h member
  unfold Doing at doing
  rw [sends] at doing
  obtain ⟨rfl, v₂, t₂, there₂, role₂, -, payload⟩ := doing
  have there₂ : threadAt s.server h.key i = some (v₂, t₂) := there₂
  obtain ⟨rfl, rfl⟩ := Prod.mk.inj (Option.some.inj (there.symm.trans there₂))
  obtain rfl := Option.some.inj ((threadAt_some there₁).1.symm.trans (threadAt_some there).1)
  refine ⟨h, member, sends, role₂, sock.symm, payload at_, ?_, ?_⟩
  · simp only [unsent, sends, there, Option.elim_some, at_]
    rfl
  · rw [server_is]
    simp only [unsent, sends, there', Option.elim_some]
    exact next_enqueued advanced

theorem Echoed.net {l : Duplex.Label} {net : Duplex.State} (echoed : Echoed s) (serving : Serving p s) (known : Known p s.net)
    (quiet : applies l = false) (fair : Fair p s.net l) (taken : Duplex.step p s.net l = some net) :
    Echoed ⟨net, s.handlers ++ (called s l).toList⟩ := by
  have admits := Serving.admits quiet fair
  refine ⟨fun key v here => ?_, fun w => ?_⟩
  · rcases traffic_step taken with ⟨same, -⟩ | ⟨tl, peer, rfl, moved⟩
    · have here : net.net.server.server.mSessionList[key]? = some v := here
      rw [same] at here
      exact echoed.receptive key v here
    · exact echoed.receives known (admits tl peer rfl) moved here
  have echoes := echoed.echoes w
  rcases called_cases known l with ⟨none, ahead⟩ | ⟨x, v, t, frame, delivers, is⟩
  · rw [none, Option.toList_none, List.append_nil]
    show (Session.packets (net.news w)).map decode = ((net.net.outbox w).enqueued ++ s.handlers.filterMap (due net.net.server.server w)).map some
    rw [news_quiet taken ahead]
    by_cases enqueues : ∃ key i ans j peer v t, l = .net (.server (.server (.at key (.thread i ans)) j) peer) ∧
        threadAt s.server key i = some (v, t) ∧ t.pc = .callEnqueue
    · obtain ⟨key, i, ans, j, peer, v, t, rfl, there, at_⟩ := enqueues
      obtain ⟨h, member, sends, role, socket, payload, before, after⟩ := serving.enqueues taken there at_
      rw [enqueued_sends there role at_ taken, payload, ← socket]
      have others (x : Handler) (inside : x ∈ s.handlers) (apart : x ≠ h) : unsent net.net.server.server x = unsent s.server x := by
        refine echoed.unsent_still serving known admits inside taken fun key' i' ans' j' peer' v' t' is mine _ => absurd ?_ apart
        cases is
        exact serving.sender_alone member inside sends mine
      by_cases own : w = h.socket
      · subst own
        rw [if_pos rfl, filterMap_due serving.apart member, due_sent after, echoes, filterMap_due serving.apart member]
        simp [due, before]
      · rw [if_neg own, List.append_nil, echoes]
        congr 2
        refine List.filterMap_congr fun x inside => ?_
        by_cases same : x = h
        · subst same
          rw [due_other fun is => own is.symm, due_other fun is => own is.symm]
        · exact (due_same (others x inside same) w).symm
    · have waits (key i : Nat) (ans : Session.Answer) (j : Nat) (peer : Network.Peer) (v : Session.Slot) (t : Session.Thread)
          (is : l = .net (.server (.server (.at key (.thread i ans)) j) peer)) (there : threadAt s.server key i = some (v, t)) : t.pc ≠ .callEnqueue :=
        fun at_ => enqueues ⟨key, i, ans, j, peer, v, t, is, there, at_⟩
      rw [enqueued_quiet taken waits, echoes]
      congr 2
      refine List.filterMap_congr fun x member => (due_same ?_ w).symm
      exact echoed.unsent_still serving known admits member taken fun key i ans j peer v t is _ => waits key i ans j peer v t is
  · rw [is, news_delivers known delivers taken]
    obtain ⟨ans, j, peer, rfl⟩ := delivers.step
    have waits (key i : Nat) (ans' : Session.Answer) (j' : Nat) (peer' : Network.Peer) (v' : Session.Slot) (t' : Session.Thread)
        (same : Duplex.Label.net (.server (.server (.at x.key (.thread x.thread ans)) j) peer) = .net (.server (.server (.at key (.thread i ans')) j') peer'))
        (there : threadAt s.server key i = some (v', t')) : t'.pc ≠ .callEnqueue := by
      intro at_
      cases same
      obtain ⟨rfl, rfl⟩ := Prod.mk.inj (Option.some.inj (delivers.there.symm.trans there))
      cases delivers.at_.symm.trans at_
    show _ = ((net.net.outbox w).enqueued ++ (s.handlers ++ [x]).filterMap (due net.net.server.server w)).map some
    have old : s.handlers.filterMap (due net.net.server.server w) = s.handlers.filterMap (due s.server w) := by
      refine List.filterMap_congr fun x member => due_same ?_ w
      exact echoed.unsent_still serving known admits member taken fun key i ans j peer v t is _ => waits key i ans j peer v t is
    rw [enqueued_quiet taken waits, List.filterMap_append, old, List.map_append, echoes]
    have fresh : unsent net.net.server.server x = true := by
      unfold unsent
      rw [delivers.fresh]
    by_cases own : w = x.socket
    · simp [own, due, fresh, delivers.decoded]
    · rw [if_neg own, List.filterMap_cons, due_other fun is => own is.symm]
      simp

/-! What `OnReceive` does. -/

theorem Echoed.handles {net : Duplex.State} {l : Traffic.Label} {peer : Network.Peer} {handlers : List Handler} (echoed : Echoed s) (known : Known p s.net)
    (admits : Admits p s.traffic l) (taken : Duplex.step p s.net (.net (.server l peer)) = some net)
    (elsewhere : ∀ key l' j, l ≠ .server (.at key l') j)
    (same : ∀ w, handlers.filterMap (due net.net.server.server w) = s.handlers.filterMap (due s.server w)) : Echoed ⟨net, handlers⟩ := by
  constructor
  case receptive =>
    intro key v here
    obtain ⟨-, none⟩ | ⟨tl, peer', is, moved⟩ := traffic_step taken
    · exact absurd rfl (none _ peer)
    cases is
    exact echoed.receives known admits moved here
  case echoes =>
    intro w
    have far (key i : Nat) (ans : Session.Answer) (j : Nat) (peer' : Network.Peer) :
        Duplex.Label.net (.server l peer) ≠ .net (.server (.server (.at key (.thread i ans)) j) peer') := by
      intro is
      cases is
      exact elsewhere key _ j rfl
    show (Session.packets (net.news w)).map decode = ((net.net.outbox w).enqueued ++ handlers.filterMap (due net.net.server.server w)).map some
    rw [news_quiet taken (fun key i ans j peer' v t frame is => absurd is (far key i ans j peer')),
      enqueued_quiet taken (fun key i ans j peer' v t is => absurd is (far key i ans j peer')), same]
    exact echoed.echoes w

theorem Echoed.sends {net : Duplex.State} (echoed : Echoed s) (serving : Serving p s) (known : Known p s.net) (at_n : s.handlers[n]? = some h)
    (at_ : h.pc = .sendPacket) (proper : Proper p s (.onReceive n)) (taken : Duplex.step p s.net (.net h.send) = some net) :
    Echoed ⟨net, s.handlers.set n { h with pc := sendingAt s.server h.sessionID }⟩ := by
  have member := List.mem_of_getElem? at_n
  have few := proper h at_n at_
  have opening := (serving.proper_send known member few).2.2
  have admits : Admits p s.traffic (.server (.call (.sendPacket (some h.packet)) h.sessionID) 0) := by
    rintro sl j is
    cases is
    exact ⟨few, opening, _, rfl⟩
  have still (x : Handler) (inside : x ∈ s.handlers) : unsent net.net.server.server x = unsent s.server x :=
    echoed.unsent_still serving known (fun tl peer is => by cases is; exact admits) inside taken (by simp [Handler.send])
  obtain ⟨v, here, sending, is⟩ := serving.joins known member taken
  have there : threadAt net.net.server.server h.key v.threads.length =
      some (v.spawn (.api (.sendPacket h.packet) h.sessionID) .callIncrement, ⟨.api (.sendPacket h.packet) h.sessionID, .callIncrement⟩) := by
    rw [is]
    exact threadAt_eq (List.getElem?_set_self (List.getElem?_eq_some_iff.mp here).1) List.getElem?_concat_length
  have before : unsent net.net.server.server h = true := by
    unfold unsent
    rw [at_]
  have after : unsent net.net.server.server { h with pc := sendingAt s.server h.sessionID } = true := by
    simp only [unsent, sending, there, Option.elim_some]
    rfl
  refine echoed.handles known admits taken (by simp) fun w => ?_
  rw [filterMap_set_same at_n]
  · exact List.filterMap_congr fun x inside => due_same (still x inside) w
  · simp only [due, before, after]

theorem Echoed.returns (echoed : Echoed s) (at_n : s.handlers[n]? = some h) (at_ : h.pc = .sending key i)
    (there : threadAt s.server key i = some (v, t)) (done : t.pc = .finished) : Echoed { s with handlers := s.handlers.set n { h with pc := .free } } := by
  refine ⟨echoed.receptive, fun w => ?_⟩
  have before : unsent s.server h = false := by
    simp only [unsent, at_, there, Option.elim_some, done]
    rfl
  have after : unsent s.server { h with pc := .free } = false := rfl
  show _ = ((s.net.net.outbox w).enqueued ++ (s.handlers.set n { h with pc := .free }).filterMap (due s.server w)).map some
  rw [filterMap_set_same at_n (by rw [due_sent before, due_sent after])]
  exact echoed.echoes w

theorem Echoed.frees {net : Duplex.State} (echoed : Echoed s) (serving : Serving p s) (known : Known p s.net) (at_n : s.handlers[n]? = some h)
    (at_ : h.pc = .free) (taken : Duplex.step p s.net (.net h.release) = some net) : Echoed ⟨net, s.handlers.eraseIdx n⟩ := by
  have admits : Admits p s.traffic (.free h.packet) := fun sl j is => by cases is
  have still (x : Handler) (inside : x ∈ s.handlers) : unsent net.net.server.server x = unsent s.server x :=
    echoed.unsent_still serving known (fun tl peer is => by cases is; exact admits) inside taken (by simp [Handler.release])
  have sent : unsent net.net.server.server h = false := by
    unfold unsent
    rw [at_]
  refine echoed.handles known admits taken (by simp) fun w => ?_
  rw [filterMap_eraseIdx at_n (due_sent sent w)]
  exact List.filterMap_congr fun x inside => due_same (still x inside) w

theorem Echoed.step {l : Label} (echoed : Echoed s) (serving : Serving p s) (known : Known p s.net) (proper : Proper p s l)
    (h : step p s l = some s') : Echoed s' := by
  cases l with
  | net l =>
    obtain ⟨quiet, -, net, taken, rfl⟩ := step_net h
    exact echoed.net serving known quiet proper taken
  | onReceive n =>
    obtain ⟨x, at_n, handles⟩ := step_onReceive h
    cases handles with
    | sends at_ net taken => exact echoed.sends serving known at_n at_ proper taken
    | returns key i at_ v t there done => exact echoed.returns at_n at_ there done
    | frees at_ net taken => exact echoed.frees serving known at_n at_ taken

/-! ### Runs -/

theorem run_echoed (fits : p.mMaxPayloadLength ≤ defaultSize) (run : Run (echoServer p) (Proper p) tr s) : Echoed s := by
  refine run.invariant (I := fun _ s => Echoed s) (fun s (started : Started p s) => .init started) fun tr s l s' before echoed proper h => ?_
  obtain ⟨⟨_, under⟩, serving⟩ := run_serving fits before
  exact echoed.step serving (known_of_run fits under) proper h

/-- All that has come in for a session has been handled, all that was enqueued for it has gone out, and its client
has got the bytes. -/
structure Rests (s : State) (v : Session.Slot) (peer : Network.Peer) : Prop where
  session : 0 < v.accepted ∧ v.accepted ∈ v.issued
  receives : ∃ io ∈ v.recvIo, ∃ cancelled, io.status = .pending cancelled
  arrived : s.net.inbound v.acceptedSocket = s.net.uplink peer
  sent : (∀ t ∈ v.threads, Session.washing t.pc = 0) ∧ Session.batches v ++ v.SendQueue = [] ∧ (s.net.net.outbox v.acceptedSocket).failed = false
  returned : (s.net.net.clients peer.client).streams peer.connection = s.net.net.outgoing v.acceptedSocket

/-- While a session waits for bytes, no call of `OnReceive` is about it. -/
theorem Serving.idle (serving : Serving p s) (known : Known p s.net) (here : s.server.mSessionList[key]? = some v) (begun : 0 < v.accepted)
    (waits : v.recvIo ≠ []) (member : h ∈ s.handlers) : h.socket ≠ v.acceptedSocket := by
  intro same
  obtain ⟨⟨v', t, there, at_, sock, -⟩, -⟩ := serving.serves h member
  obtain ⟨here', at_i⟩ := threadAt_some there
  have works := known.works there (by rw [at_]; exact Nat.one_pos)
  obtain rfl := known.numbered.apart h.key key v' v here' here works.begun.1 begun (sock.trans same)
  obtain rfl := Option.some.inj (here.symm.trans here')
  obtain ⟨-, -, opened⟩ := known.slot here
  have token := opened.token
  have receives : Session.receiving t.pc = 1 := by
    rw [at_]
    rfl
  have own := Session.le_weigh (w := Session.receiving) (List.mem_of_getElem? at_i)
  have pending := List.length_pos_iff.mpr waits
  omega

/-- In every run of `EchoServer` and its clients, no client's assertion fails, and what a client's `OnReceive` gets on a
connection are the payloads of the packets that it has sent on it, in their order and from the first on; all of them
when the session is at rest. -/
theorem clients_get_their_packets_back (fits : p.mMaxPayloadLength ≤ defaultSize) (run : Run (echoServer p) (Proper p) tr s) :
    (∀ k, (s.net.net.clients k).died = false) ∧
      ∀ k c pc d, .recvThread c pc d ∈ (s.net.net.clients k).threads → d <+: s.net.told ⟨k, c⟩ ∧
        ∀ n, s.net.net.peers[n]? = some ⟨k, c⟩ → ∀ v ∈ s.server.mSessionList, v.acceptedSocket = n + 1 → Rests s v ⟨k, c⟩ →
          d = s.net.told ⟨k, c⟩ := by
  obtain ⟨⟨_, under⟩, serving⟩ := run_serving fits run
  have known := known_of_run fits under
  have echoed := run_echoed fits run
  obtain ⟨_, net⟩ := Duplex.run_net under
  obtain ⟨alive, arrives, leaves⟩ := Network.enqueued_packets_arrive fits net
  obtain ⟨heard, all⟩ := Duplex.sent_packets_reach_sessions fits under
  have injective : Function.Injective (some : List UInt8 → Option (List UInt8)) := Option.some_injective _
  refine ⟨alive, fun k c pc d member => ?_⟩
  obtain ⟨unknown, comes⟩ := arrives k c pc d member
  refine ⟨?_, fun n at_n v inside sock rests => ?_⟩
  · by_cases accepted : ⟨k, c⟩ ∈ s.net.net.peers
    · obtain ⟨n, at_n⟩ := List.mem_iff_getElem?.mp accepted
      have told := heard n ⟨k, c⟩ at_n
      rw [echoed.echoes, List.prefix_map_iff_of_injective injective] at told
      exact (comes n at_n).1.trans ((List.prefix_append _ _).trans told)
    · rw [unknown accepted]
      exact List.nil_prefix
  · obtain ⟨⟨begun, announced⟩, ⟨io, pending, cancelled, status⟩, arrived, ⟨settled, empty, good⟩, returned⟩ := rests
    obtain ⟨key, here⟩ := List.mem_iff_getElem?.mp inside
    have whole := (all v inside begun announced n ⟨k, c⟩ at_n sock).1 ⟨io, pending, cancelled, status⟩
    have out := leaves v inside begun settled good
    rw [sock] at arrived good returned out
    rw [empty, List.map_nil, List.append_nil] at out
    have none : s.handlers.filterMap (due s.server (n + 1)) = [] := by
      refine List.filterMap_eq_nil_iff.mpr fun h member => due_other ?_
      rw [← sock]
      exact serving.idle known here begun (List.ne_nil_of_mem pending) member
    have told := whole arrived
    rw [echoed.echoes, none, List.append_nil] at told
    rw [(comes n at_n).2 returned, ← out]
    exact List.map_injective_iff.mpr injective told

def serverSteps (ls : List Traffic.Label) : List Label := ls.map fun l => .net (.net (.server l ⟨0, 0⟩))

/-- `OnReceive` sends the number 7 back and frees its packet, and the client receives it. -/
def sevenEchoed : List Label := sevenCalled ++ .onReceive 0 :: serverSteps (Traffic.serverSteps (List.replicate 4 (.at 0 (.thread 2 .go))) ++
    List.replicate 4 (.prepare 0 2 3) ++ Traffic.serverSteps (List.replicate 9 (.at 0 (.thread 2 .go)) ++ .at 0 (.thread 2 .pending) ::
      List.replicate 3 (.at 0 (.thread 2 .go)))) ++ [.onReceive 0, .onReceive 0] ++
  (NetClient.moves 1 [.none, .bytes (wire 3 [7, 0, 0, 0])]).map fun l => .net (.net (.client 0 l))

theorem seven_comes_back : ∃ (tr : List (State × Label)) (s : State), tr.map Prod.snd = sevenEchoed ∧ s.handlers = [] ∧
    (s.net.net.clients 0).died = false ∧ [[7, 0, 0, 0]] <+: s.net.told ⟨0, 0⟩ := by
  have along : Along (echoServer plainTraffic) (Proper plainTraffic) freshEcho sevenEchoed := by decide +kernel
  obtain ⟨s, reached, run⟩ := Run.along (.init freshEcho_started) along
  have facts : (exec (echoServer plainTraffic) freshEcho sevenEchoed).map (fun s => (s.handlers.length, (s.net.net.clients 0).threads[1]?)) =
      some (0, some (.recvThread 0 .readSocket [[7, 0, 0, 0]])) := by decide +kernel
  rw [reached] at facts
  simp only [Option.map_some, Option.some.injEq, Prod.mk.injEq] at facts
  obtain ⟨none, thread⟩ := facts
  obtain ⟨alive, back⟩ := clients_get_their_packets_back (by decide) run
  have member := List.mem_of_getElem? thread
  exact ⟨_, s, trace_labels reached, List.eq_nil_of_length_eq_zero none, alive 0, (back 0 0 _ _ member).1⟩

end WanNet.EchoServer
