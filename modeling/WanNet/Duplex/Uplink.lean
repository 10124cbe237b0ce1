import WanNet.Duplex.Model

/-!
From `SendPacket` at a client to `OnReceive` at the server.
-/

namespace WanNet.Server
open Transition Session

variable {p : Params} {s s' : NetServer} {l : Label}

/-- A step of a server, as a step of one of its slots. -/
structure SlotStep (p : Params) (s s' : NetServer) (key : Nat) (v v' : Slot) (l : Session.Label) : Prop where
  here : s.mSessionList[key]? = some v
  taken : Session.step (p.config key) v l = some v'
  list : s'.mSessionList = s.mSessionList.set key v'
  bounded : Bounded (p.config key) v l
  numbered : Numbered v l
  accepted : v'.accepted ≤ s'.mSessionAcceptedCount
  counts : s.mSessionAcceptedCount ≤ s'.mSessionAcceptedCount
  range : s.mSessionAcceptedCount < 2 ^ 32 → s'.mSessionAcceptedCount < 2 ^ 32

inductive SlotStep.Kind (s s' : NetServer) (key : Nat) : Label → Session.Label → Prop where
  | at (l : Session.Label) (clients : s'.clients = s.clients) (noaccept : ∀ count sock address, l ≠ .accept count sock address) :
    Kind s s' key (.at key l) l
  | call (request : Request) (call : Call) (sessionID : Nat) (clients : s'.clients = s.clients) :
    Kind s s' key (.call request sessionID) (.call call sessionID)
  | accept (address : Nat) (clients : s'.clients = s.clients + 1) :
    Kind s s' key (.accept address) (.accept (s.mSessionAcceptedCount + 1) (s.clients + 1) address)

theorem slot_steps (few : FewEach p s l) (opening : Opening s l) (known : ∀ (key : Nat) (v : Slot), s.mSessionList[key]? = some v → v.accepted ≤ s.mSessionAcceptedCount)
    (h : step p s l = some s') :
    (s'.mSessionList = s.mSessionList ∧ s'.mSessionAcceptedCount = s.mSessionAcceptedCount ∧ s.clients ≤ s'.clients ∧ ∀ key l', l ≠ .at key l') ∨
      ∃ key v v' l', SlotStep p s s' key v v' l' ∧ SlotStep.Kind s s' key l l' := by
  have fewer (key : Nat) (v v' : Slot) (l' : Session.Label) (here : s.mSessionList[key]? = some v)
      (taken : Session.step (p.config key) v l' = some v') (list : s'.mSessionList = s.mSessionList.set key v') :
      Few (p.config key) v l' := by
    intro v'' is
    obtain rfl := Option.some.inj (taken.symm.trans is)
    refine few s' h v' ?_
    rw [list]
    exact List.mem_set (List.getElem?_eq_some_iff.mp here).1 _
  cases l with
  | accept address =>
    have opening : s.mSessionAcceptedCount + 1 < 2 ^ 32 := opening
    have counted : (s.mSessionAcceptedCount + 1) % 2 ^ 64 = s.mSessionAcceptedCount + 1 := by omega
    obtain ⟨-, ⟨-, rfl⟩ | ⟨key, rest, v, v', stack, here, taken, is⟩⟩ := step_accept h
    · exact .inl ⟨rfl, rfl, Nat.le_succ _, by simp⟩
    · rw [counted] at taken is
      have before := known key v here
      have list : s'.mSessionList = s.mSessionList.set key v' := by rw [is]; rfl
      have count : s'.mSessionAcceptedCount = s.mSessionAcceptedCount + 1 := by rw [is]
      refine .inr ⟨key, v, v', _, ⟨here, taken, list, ⟨fewer key v v' _ here taken list, trivial⟩, ⟨by omega, opening⟩, ?_, by omega, fun _ => by omega⟩,
        .accept address (by rw [is])⟩
      rewrite [count, (Session.step_accept taken).2]
      exact Nat.le_refl _
  | call request sessionID =>
    obtain ⟨rfl, -⟩ | ⟨call, key, v, v', -, found, here, taken, rfl⟩ := step_call h
    · exact .inl ⟨rfl, rfl, Nat.le_refl _, by simp⟩
    · have accepted : v'.accepted = v.accepted := by
        obtain rfl := Option.some.inj taken
        rfl
      have before := known key v here
      exact .inr ⟨key, v, v', _, ⟨here, taken, rfl, ⟨fewer key v v' _ here taken rfl, .inl (opening key found v here)⟩, trivial,
        accepted ▸ before, Nat.le_refl _, id⟩, .call request call sessionID rfl⟩
  | «at» key l =>
    have noaccept (count sock address : Nat) : l ≠ .accept count sock address := by
      rintro rfl
      cases h
    obtain ⟨v, v', w, here, taken, rfl, how⟩ := step_at h
    have used : Used v l := by
      cases l with
      | call call sessionID => cases h
      | _ => trivial
    have numbered : Numbered v l := by
      cases l with
      | accept count sock address => exact absurd rfl (noaccept count sock address)
      | _ => trivial
    have before := known key v here
    obtain ⟨rfl, outside⟩ | ⟨i, ans, t, rfl, at_i, rfl⟩ := how
    · obtain ⟨⟨accepted, -⟩, -⟩ := step_elsewhere taken outside noaccept
      exact .inr ⟨key, v, v', l, ⟨here, taken, rfl, ⟨fewer key v v' _ here taken rfl, used⟩, numbered, accepted ▸ before, Nat.le_refl _, id⟩,
        .at l rfl noaccept⟩
    · obtain ⟨list, count, clients, -⟩ := effect_same s v t.pc
      obtain ⟨t', v₁, pc', -, advanced, is⟩ := step_thread taken
      have accepted : v'.accepted = v.accepted := by
        rw [is]
        exact (next_accepted advanced).1
      have set : ((effect s v t.pc).put key v').mSessionList = s.mSessionList.set key v' := by
        show (effect s v t.pc).mSessionList.set key v' = _
        rw [list]
      have same : ((effect s v t.pc).put key v').mSessionAcceptedCount = s.mSessionAcceptedCount := count
      refine .inr ⟨key, v, v', _, ⟨here, taken, set, ⟨fewer key v v' _ here taken set, used⟩, numbered, ?_, Nat.le_of_eq same.symm, same ▸ id⟩,
        .at _ clients noaccept⟩
      rw [same, accepted]
      exact before

end WanNet.Server

namespace WanNet.Duplex
open Transition Serializer Network

variable {p : Traffic.Params} {s s' : State} {key k w : Nat} {v v' : Session.Slot} {tr : List (State × Label)}

/-! ### What comes in -/

/-- A slot that takes bytes takes them from the socket of its session, for which they are. -/
theorem brings_own {cfg : Session.Config} {l : Session.Label} {x : Nat × List UInt8} (sep : Session.Separate cfg v)
    (opened : Session.Opened cfg v) (begun : Server.Begun v) (takes : brings v l = some x) :
    (0 < v.accepted ∧ x.1 = v.acceptedSocket) ∧
      Session.ofSession (Session.newSessionID cfg v.accepted) (Session.happening v l) = some (.received x.2) := by
  have of_live (live : (Session.core v).live = 1) : 0 < v.accepted := begun (Nat.add_pos_left (ReleaseCount.Core.live_eq_one.mp live).2 _)
  unfold brings at takes
  split at takes
  next j data =>
    obtain ⟨io, at_j, rfl⟩ := Option.map_eq_some_iff.mp takes
    obtain ⟨id, -⟩ := opened.pending_receive sep.counts at_j
    have live : (Session.core v).live = 1 := by
      rcases sep.counts.inv.pinned with live | ⟨-, none⟩
      · exact live
      · have held := (List.getElem?_eq_some_iff.mp at_j).1
        simp only [Session.core] at none
        omega
    refine ⟨⟨of_live live, (sep.incoming.posted io (List.mem_of_getElem? at_j)).1⟩, ?_⟩
    rw [← id]
    exact Session.ofSession_self ..
  next i data =>
    split at takes
    next buf len is =>
      obtain rfl := Option.some.inj takes
      obtain ⟨t, at_i, here⟩ := Option.map_eq_some_iff.mp is
      have receives : Session.receiving t.pc = 1 := by rw [here]; rfl
      have uninit : Session.initialising t.pc = 0 := by rw [here]; rfl
      have acts : 0 < Session.acting t.pc := by rw [here]; exact Nat.one_pos
      obtain ⟨id, -⟩ := opened.receives sep.counts at_i receives (Session.settled_of_receiving receives uninit) uninit
      have live := (sep.identified.working sep.counts (List.mem_of_getElem? at_i) acts).1
      have socketed : Session.weigh Session.unsocketed v = 0 := by
        have le (pc : Session.Pc) : Session.unsocketed pc ≤ Session.receiving pc :=
          calc Session.unsocketed pc
            _ ≤ Session.uncleared pc := Session.unsocketed_le pc
            _ ≤ Session.initialising pc := Session.uncleared_le pc
            _ ≤ Session.receiving pc := Session.initialising_le_receiving pc
        rw [(opened.alone at_i receives le).1, here]
        rfl
      refine ⟨⟨of_live live, sep.incoming.socket live socketed⟩, ?_⟩
      have happens : Session.happening v (.thread i (.atOnce data)) = some (v.ID, .received data) := by
        simp [Session.happening, at_i, here, Session.Pc.happening]
      rw [happens, ← id]
      exact Session.ofSession_self ..
    · cases takes
  · cases takes

/-- Bytes are received only where a step takes them. -/
theorem received_brings {cfg : Session.Config} {l : Session.Label} (sessionID : Nat) (h : Session.step cfg v l = some v')
    (none : brings v l = none) : Session.received (Session.ofSession sessionID (Session.happening v l)).toList = [] := by
  cases happens : Session.happening v l with
  | none => rfl
  | some e =>
    obtain ⟨other, e⟩ := e
    by_cases mine : other = sessionID
    · subst mine
      rw [Session.ofSession_self]
      cases e with
      | received bytes =>
        exfalso
        cases l with
        | recvCompletes j data =>
          obtain ⟨io, at_j, -⟩ := Session.step_recvCompletes h
          rw [brings, at_j] at none
          cases none
        | thread i ans =>
          obtain ⟨t, at_i, here⟩ := Option.bind_eq_some_iff.mp happens
          cases pc : t.pc with
          | wsaRecv buf len =>
            rw [pc] at here
            cases ans with
            | atOnce data => simp [brings, at_i, pc] at none
            | _ => cases here
          | _ =>
            rw [pc] at here
            cases here
        | _ => cases happens
      | _ => rfl
    · rw [Session.ofSession_other mine]
      rfl

/-! ### What the server has of a client's bytes -/

/-- A slot's steps, when nothing is lost. -/
def Clear (cfg : Session.Config) (v : Session.Slot) (l : Session.Label) : Prop :=
  (Session.Bounded cfg v l ∧ Session.Numbered v l) ∧ Session.Roomy v l

def Sender.Good (p : Traffic.Params) (x : Sender) : Prop :=
  x.payload.length ≤ p.mMaxPayloadLength ∧
    match x.pc with
    | .testConnected | .prepare => Sendable p x.packet ∧ x.payload = payloadOf x.packet
    | .readSocket | .send _ => ∃ rand, x.packet.sent = .ok (wire rand x.payload)
    | .returned _ => True

/-- Every session has the bytes that have come in for it, and they are the first of those that its client has sent. -/
structure Inbox (p : Traffic.Params) (s : State) : Prop where
  range : s.net.server.server.mSessionAcceptedCount < 2 ^ 32
  known : ∀ (key : Nat) (v : Session.Slot), s.net.server.server.mSessionList[key]? = some v →
    v.accepted ≤ s.net.server.server.mSessionAcceptedCount
  slots : ∀ (key : Nat) (v : Session.Slot), s.net.server.server.mSessionList[key]? = some v →
    v.RecvBuffer.mCapacity = RingBuffer.defaultSize ∧ ∃ tr, Run (Session.slot (p.server.config key)) (Clear (p.server.config key)) tr v ∧
      (0 < v.accepted → s.news v.acceptedSocket = Session.history (Session.newSessionID (p.server.config key) v.accepted) tr)
  silent : ∀ w, s.net.server.server.clients < w → s.news w = []
  came : ∀ w, Session.received (s.news w) = s.inbound w
  brought : ∀ w, s.inbound w <+: s.outOf w

/-- What a client has sent are the frames of its packets. -/
structure Outgoing (p : Traffic.Params) (s : State) : Prop where
  framed : ∀ peer, ∃ sends : List (UInt8 × List UInt8), (∀ x ∈ sends, x.2.length ≤ p.mMaxPayloadLength) ∧
    s.uplink peer = (sends.map fun x => wire x.1 x.2).flatten ∧ sends.map Prod.snd = s.told peer
  senders : ∀ k, ∀ x ∈ s.senders k, x.Good p

theorem Inbox.init (started : Started p s) : Inbox p s := by
  obtain ⟨-, uplink, -, inbound, news⟩ := started.unused
  obtain ⟨server, -⟩ := started.net.server.server
  have fresh {key : Nat} {v : Session.Slot} (here : s.net.server.server.mSessionList[key]? = some v) : v.Fresh :=
    (server.slots v (List.mem_of_getElem? here)).1
  refine ⟨?_, fun key v here => ?_, fun key v here => ?_, fun w _ => news w, fun w => ?_, fun w => ?_⟩
  · have := server.counters.1
    omega
  · have := (fresh here).unused.2.1
    omega
  · refine ⟨started.rings v (List.mem_of_getElem? here), [], .init (fresh here), fun begun => ?_⟩
    have := (fresh here).unused.2.1
    omega
  · rw [news, inbound]
    rfl
  · rewrite [inbound]
    exact List.nil_prefix

theorem Outgoing.init (started : Started p s) : Outgoing p s := by
  obtain ⟨senders, uplink, told, -⟩ := started.unused
  refine ⟨fun peer => ⟨[], by simp, uplink peer, (told peer).symm⟩, fun k x member => ?_⟩
  rw [senders] at member
  cases member

theorem outOf_grows (peers : ∃ more, s'.net.peers = s.net.peers ++ more) (uplink : ∀ peer, s.uplink peer <+: s'.uplink peer) (w : Nat) :
    s.outOf w <+: s'.outOf w := by
  obtain ⟨more, peers⟩ := peers
  cases w with
  | zero => exact List.prefix_rfl
  | succ n =>
    show (s.net.peers[n]?).elim [] s.uplink <+: (s'.net.peers[n]?).elim [] s'.uplink
    cases at_n : s.net.peers[n]? with
    | none => exact List.nil_prefix
    | some peer =>
      have still : s'.net.peers[n]? = some peer := by
        rw [peers, List.getElem?_append_left (List.getElem?_eq_some_iff.mp at_n).1]
        exact at_n
      rw [still]
      exact uplink peer

/-- The parts of a server that a step of one slot leaves alone. -/
theorem Inbox.slot_step {u : State} {l : Session.Label} (inbox : Inbox p s) (numbered : Network.Numbered s.net.server.server)
    (slots : Server.Slots p.server s.net.server.server)
    (moves : Server.SlotStep p.server s.net.server.server u.net.server.server key v v' l) (room : Session.Roomy v l)
    (kind : (u.net.server.server.clients = s.net.server.server.clients ∧ ∀ count sock address, l ≠ .accept count sock address) ∨
      ∃ address, l = .accept (s.net.server.server.mSessionAcceptedCount + 1) (s.net.server.server.clients + 1) address ∧
        u.net.server.server.clients = s.net.server.server.clients + 1)
    (sent : ∀ x ∈ brings v l, s.inbound x.1 ++ x.2 <+: s.outOf x.1)
    (news : ∀ w, u.news w = if 0 < v.accepted ∧ w = v.acceptedSocket then s.news w ++
      (Session.ofSession (Session.newSessionID (p.server.config key) v.accepted) (Session.happening v l)).toList else s.news w)
    (inbound : ∀ w, u.inbound w = match brings v l with
      | some (socket, data) => if w = socket then s.inbound w ++ data else s.inbound w
      | none => s.inbound w)
    (grows : ∀ w, s.outOf w <+: u.outOf w) : Inbox p u := by
  obtain ⟨here, taken, list, bounded, own_number, accepted, counts, range⟩ := moves
  obtain ⟨ring, t, run, told⟩ := inbox.slots key v here
  have plain : Run (Session.slot (p.server.config key)) (fun v l => Session.Bounded (p.server.config key) v l ∧ Session.Numbered v l) t v :=
    run.mono fun _ _ clear => clear.1
  have opened := (Session.Run.opened plain).2
  have sep := (slots.registration here).1
  obtain ⟨_, other⟩ := slots.slots key v here
  have begun := Server.run_begun other
  have unheard (w : Nat) (apart : w ≠ v.acceptedSocket) : u.news w = s.news w := by
    rw [news, if_neg fun same => apart same.2]
  have next : Run (Session.slot (p.server.config key)) (Clear (p.server.config key)) (t ++ [(v, l)]) v' :=
    run.step ⟨⟨bounded, own_number⟩, room⟩ taken
  refine ⟨range inbox.range, fun n x at_n => ?_, fun n x at_n => ?_, fun w beyond => ?_, fun w => ?_, fun w => ?_⟩
  · rw [list] at at_n
    rcases Threads.at_set at_n with ⟨rfl, rfl⟩ | ⟨-, old⟩
    · exact accepted
    · exact Nat.le_trans (inbox.known n x old) counts
  · rw [list] at at_n
    rcases Threads.at_set at_n with ⟨rfl, rfl⟩ | ⟨apart, old⟩
    · refine ⟨(Session.step_mCapacity taken).trans ring, _, next, fun begins => ?_⟩
      rcases kind with ⟨-, noaccept⟩ | ⟨address, rfl, -⟩
      · obtain ⟨same, sock⟩ := step_keeps_socket taken noaccept
        rw [sock, same, news, if_pos ⟨same ▸ begins, rfl⟩, Session.history_append, told (same ▸ begins)]
      · -- the next session has the next socket, and nothing has happened to it
        have after := (Session.step_accept taken).2
        have number : x.accepted = s.net.server.server.mSessionAcceptedCount + 1 := by rw [after]
        have sock : x.acceptedSocket = s.net.server.server.clients + 1 := by rw [after]
        have small : x.accepted < 2 ^ 32 := by
          have := range inbox.range
          omega
        have unissued : x.accepted ∉ v.issued := by
          intro issued
          have := opened.past _ issued
          have := inbox.known n v here
          omega
        have unborn : Session.history (Session.newSessionID (p.server.config n) x.accepted) t = [] := by
          refine Session.unborn_of_follows ((Session.Run.follows plain small).trans ?_)
          rw [Session.phase, if_pos unissued]
        rw [sock, news, if_neg, inbox.silent _ (Nat.lt_succ_self _), Session.history_append, unborn]
        · rfl
        · rintro ⟨begun, same⟩
          have := numbered.known n v here begun
          omega
    · obtain ⟨ring, t', run', told'⟩ := inbox.slots n x old
      refine ⟨ring, t', run', fun begins => ?_⟩
      rw [news, if_neg]
      · exact told' begins
      · rintro ⟨begun, same⟩
        exact apart (numbered.apart n key x v old here begins begun same)
  · have before : s.net.server.server.clients < w := by
      rcases kind with ⟨same, -⟩ | ⟨-, -, more⟩ <;> omega
    rw [news, if_neg, inbox.silent w before]
    rintro ⟨begun, same⟩
    have := numbered.known key v here begun
    omega
  · rw [news, inbound]
    cases takes : brings v l with
    | some x =>
      obtain ⟨socket, data⟩ := x
      obtain ⟨⟨begins, rfl⟩, happens⟩ := brings_own sep opened begun takes
      by_cases mine : w = v.acceptedSocket
      · rw [if_pos ⟨begins, mine⟩, happens, Session.received_append, inbox.came]
        simp [mine, Session.received]
      · rw [if_neg fun same => mine same.2, inbox.came]
        exact (if_neg mine).symm
    | none =>
      have nothing := received_brings (Session.newSessionID (p.server.config key) v.accepted) taken takes
      split
      · rw [Session.received_append, nothing, List.append_nil]
        exact inbox.came w
      · exact inbox.came w
  · rw [inbound]
    cases takes : brings v l with
    | some x =>
      obtain ⟨socket, data⟩ := x
      simp only
      split
      next here =>
        rw [here]
        exact (sent _ takes).trans (grows _)
      · exact (inbox.brought w).trans (grows w)
    | none => exact (inbox.brought w).trans (grows w)

/-- The sessions are left alone. -/
theorem Inbox.still {u : State} (inbox : Inbox p s) (list : u.net.server.server.mSessionList = s.net.server.server.mSessionList)
    (count : u.net.server.server.mSessionAcceptedCount = s.net.server.server.mSessionAcceptedCount)
    (clients : s.net.server.server.clients ≤ u.net.server.server.clients) (news : u.news = s.news) (inbound : u.inbound = s.inbound)
    (grows : ∀ w, s.outOf w <+: u.outOf w) : Inbox p u := by
  refine ⟨count ▸ inbox.range, ?_, ?_, fun w beyond => ?_, ?_, fun w => ?_⟩
  · rw [list, count]
    exact inbox.known
  · rw [list, news]
    exact inbox.slots
  · rw [news]
    exact inbox.silent w (Nat.lt_of_le_of_lt clients beyond)
  · rw [news, inbound]
    exact inbox.came
  · rw [inbound]
    exact (inbox.brought w).trans (grows w)

theorem slotOf_quiet {l : Network.Label} (quiet : ∀ key l' j peer, l ≠ .server (.server (.at key l') j) peer) : slotOf s l = none := by
  unfold slotOf
  split
  next key l' j peer => exact absurd rfl (quiet key l' j peer)
  · rfl

theorem Inbox.net {l : Network.Label} (inbox : Inbox p s) (numbered : Network.Numbered s.net.server.server)
    (slots : Server.Slots p.server s.net.server.server) (proper : Network.Proper p s.net l) (spacious : Spacious s l)
    (h : step p s (.net l) = some s') : Inbox p s' := by
  obtain ⟨sent, net, taken, rfl⟩ := step_net h
  have quietly (quiet : slotOf s l = none) : report p s l = s.news ∧ receive s l = s.inbound := by
    constructor
    · funext w
      unfold report
      rw [quiet]
    · funext w
      unfold receive arriving
      rw [quiet]
      rfl
  cases l with
  | client k l =>
    obtain ⟨-, c, -, rfl⟩ := step_client taken
    obtain ⟨news, inbound⟩ := quietly rfl
    exact inbox.still rfl rfl (Nat.le_refl _) news inbound fun w => outOf_grows ⟨[], (List.append_nil _).symm⟩ (fun _ => List.prefix_rfl) w
  | server l peer =>
    obtain ⟨-, server, moved, rfl⟩ := step_server taken
    have more : ∃ more, (if accepts l = true then s.net.peers ++ [peer] else s.net.peers) = s.net.peers ++ more := by
      by_cases accepting : accepts l = true
      · exact ⟨[peer], if_pos accepting⟩
      · exact ⟨[], (if_neg accepting).trans (List.append_nil _).symm⟩
    have grows {u : State} (peers : u.net.peers = if accepts l = true then s.net.peers ++ [peer] else s.net.peers)
        (uplink : u.uplink = s.uplink) (w : Nat) : s.outOf w <+: u.outOf w := by
      refine outOf_grows (by rw [peers]; exact more) (fun peer => ?_) w
      rewrite [uplink]
      exact List.prefix_rfl
    rcases Traffic.step_server moved with ⟨same, outside⟩ | ⟨l', j, rfl, advanced⟩
    · obtain ⟨news, inbound⟩ := quietly (slotOf_quiet fun key l' j peer' is => outside _ _ (Network.Label.server.inj is).1)
      exact inbox.still (by rw [same]) (by rw [same]) (by rw [same]) news inbound (grows rfl rfl)
    · obtain ⟨⟨⟨few, -⟩, -⟩, -⟩ := proper
      obtain ⟨room, opening⟩ := spacious
      rcases Server.slot_steps few opening inbox.known advanced with ⟨list, count, clients, elsewhere⟩ | ⟨key, v, v', l, moves, kind⟩
      · obtain ⟨news, inbound⟩ := quietly (slotOf_quiet fun key l' j peer' is => by
          cases is
          exact elsewhere key l' rfl)
        exact inbox.still list count clients news inbound (grows rfl rfl)
      · have here := moves.here
        cases kind with
        | «at» l clients noaccept =>
          have slot : slotOf s (.server (.server (.at key l) j) peer) = some (key, v, l) := by simp [slotOf, here]
          have takes : arriving s (.server (.server (.at key l) j) peer) = brings v l := by simp [arriving, slot]
          rw [takes] at sent
          refine inbox.slot_step numbered slots moves (room _ slot) (.inl ⟨clients, noaccept⟩) sent (fun w => ?_) (fun w => ?_) (grows rfl rfl)
          · simp only [report, slot]
          · unfold receive
            rewrite [takes]
            exact rfl
        | call request call sessionID clients =>
          have slot : slotOf s (.server (.server (.call request sessionID) j) peer) = none := rfl
          obtain ⟨news, inbound⟩ := quietly slot
          refine inbox.slot_step numbered slots moves trivial (.inl ⟨clients, by simp⟩) (by simp [brings]) (fun w => ?_) (congrFun inbound)
            (grows rfl rfl)
          refine (congrFun news w).trans ?_
          simp [Session.happening, Session.ofSession]
        | accept address clients =>
          have slot : slotOf s (.server (.server (.accept address) j) peer) = none := rfl
          obtain ⟨news, inbound⟩ := quietly slot
          refine inbox.slot_step numbered slots moves trivial (.inr ⟨address, rfl, clients⟩) (by simp [brings]) (fun w => ?_) (congrFun inbound)
            (grows rfl rfl)
          refine (congrFun news w).trans ?_
          simp [Session.happening, Session.ofSession]

theorem Inbox.step {l : Label} (inbox : Inbox p s) (numbered : Network.Numbered s.net.server.server)
    (slots : Server.Slots p.server s.net.server.server) (proper : Proper p s l) (h : step p s l = some s') : Inbox p s' := by
  cases l with
  | net l => exact inbox.net numbered slots proper.1 proper.2 h
  | sendPacket k packet =>
    obtain rfl | ⟨q, -, rfl⟩ := step_sendPacket h
    · exact inbox
    · exact inbox.still rfl rfl (Nat.le_refl _) rfl rfl fun w => outOf_grows ⟨[], (List.append_nil _).symm⟩ (fun _ => List.prefix_rfl) w
  | sender k i rand ok =>
    obtain ⟨x, packet, pc, -, -, rfl⟩ := step_sender h
    refine inbox.still rfl rfl (Nat.le_refl _) rfl rfl (outOf_grows ⟨[], (List.append_nil _).symm⟩ fun peer => ?_)
    show s.uplink peer <+: if _ then _ else _
    split
    · exact List.prefix_append ..
    · exact List.prefix_rfl

/-! ### What the clients send -/

/-- `prepareSend` makes the frame of what is in the packet. -/
theorem Sendable.prepares {packet : Packet} (sendable : Sendable p packet) (unprepared : packet.mbSendPrepared = false) (rand : UInt8) :
    ∃ q, packet.prepareSend rand = .ok q ∧ q.sent = .ok (wire rand (payloadOf packet)) := by
  have good := sendable.good
  rw [unprepared] at good
  obtain ⟨k, rep⟩ := Traffic.represents_of_size good.1 good.2
  obtain ⟨q, prepared, sent, -⟩ := Packet.prepareSend_sent (Traffic.read_contents rep) rand
  refine ⟨q, prepared, ?_⟩
  rw [payloadOf, unprepared]
  exact sent

theorem Sender.Good.moves {x : Sender} {c : NetClient.Client} {packet : Packet} {rand : UInt8} {pc : SendPacket} (good : x.Good p)
    (moved : sendPacket c x.packet rand x.pc = some (packet, pc)) : Sender.Good p ⟨packet, pc, x.payload⟩ := by
  obtain ⟨short, knows⟩ := good
  refine ⟨short, ?_⟩
  obtain ⟨q, pc₀, payload⟩ := x
  cases pc₀ with
  | testConnected =>
    obtain ⟨rfl, rfl⟩ := Prod.mk.inj (Option.some.inj moved)
    cases c.mbIsConnected
    · trivial
    · exact knows
  | prepare =>
    obtain ⟨sendable, is⟩ : Sendable p q ∧ payload = payloadOf q := knows
    subst is
    simp only [sendPacket] at moved
    split at moved
    next prepared =>
      obtain ⟨rfl, rfl⟩ := Prod.mk.inj (Option.some.inj moved)
      have good := sendable.good
      rw [if_pos prepared] at good
      exact ⟨_, Traffic.toOption_eq_some good⟩
    next unprepared =>
      obtain ⟨packet, prepared, is⟩ := Option.map_eq_some_iff.mp moved
      obtain ⟨rfl, rfl⟩ := Prod.mk.inj is
      obtain ⟨r, made, sent⟩ := sendable.prepares (by simpa using unprepared) rand
      obtain rfl := Except.ok.inj (made.symm.trans (Traffic.toOption_eq_some prepared))
      exact ⟨rand, sent⟩
  | readSocket =>
    obtain ⟨rfl, rfl⟩ := Prod.mk.inj (Option.some.inj moved)
    exact knows
  | send socket =>
    obtain ⟨rfl, rfl⟩ := Prod.mk.inj (Option.some.inj moved)
    trivial
  | returned result => cases moved

theorem Outgoing.step {l : Label} (out : Outgoing p s) (proper : Proper p s l) (h : step p s l = some s') : Outgoing p s' := by
  cases l with
  | net l =>
    obtain ⟨-, net, -, rfl⟩ := step_net h
    exact ⟨out.framed, out.senders⟩
  | sendPacket k packet =>
    obtain rfl | ⟨q, member, rfl⟩ := step_sendPacket h
    · exact out
    · refine ⟨out.framed, fun n x inside => ?_⟩
      have inside : x ∈ if n = k then s.senders n ++ [⟨q, .testConnected, payloadOf q⟩] else s.senders n := inside
      split at inside
      · rcases List.mem_append.mp inside with old | new
        · exact out.senders n x old
        · obtain rfl := List.mem_singleton.mp new
          have sendable := proper q member
          exact ⟨sendable.short, sendable, rfl⟩
      · exact out.senders n x inside
  | sender k i rand ok =>
    obtain ⟨x, packet, pc, at_i, moved, rfl⟩ := step_sender h
    have good := out.senders k x (List.mem_of_getElem? at_i)
    refine ⟨fun peer => ?_, fun n y inside => ?_⟩
    · obtain ⟨sends, fits, uplink, told⟩ := out.framed peer
      show ∃ sends : List (UInt8 × List UInt8), _ ∧
        (if sendsOn (s.net.clients k) k ok x.pc = some peer then s.uplink peer ++ frameOf x.packet else s.uplink peer) = _ ∧
        _ = (if sendsOn (s.net.clients k) k ok x.pc = some peer then s.told peer ++ [x.payload] else s.told peer)
      split
      next on =>
        have sending : ∃ rand, x.packet.sent = .ok (wire rand x.payload) := by
          have knows := good.2
          cases at_ : x.pc with
          | send socket =>
            rw [at_] at knows
            exact knows
          | _ =>
            rw [at_] at on
            cases on
        obtain ⟨rand', sent⟩ := sending
        have frame : frameOf x.packet = wire rand' x.payload := by
          rw [frameOf, sent]
          rfl
        refine ⟨sends ++ [(rand', x.payload)], fun y member => ?_, ?_, ?_⟩
        · rcases List.mem_append.mp member with old | new
          · exact fits y old
          · obtain rfl := List.mem_singleton.mp new
            exact good.1
        · rw [uplink, frame, List.map_append, List.flatten_append]
          simp
        · rw [List.map_append, told]
          rfl
      · exact ⟨sends, fits, uplink, told⟩
    · have inside : y ∈ if n = k then (s.senders n).set i ⟨packet, pc, x.payload⟩ else s.senders n := inside
      split at inside
      · rcases Threads.mem_set_at inside with rfl | ⟨j, -, at_j⟩
        · exact good.moves moved
        · exact out.senders n y (List.mem_of_getElem? at_j)
      · exact out.senders n y inside

/-! ### Runs -/

theorem run_slots (run : Run (duplex p) (Proper p) tr s) : Server.Slots p.server s.net.server.server := by
  obtain ⟨_, net⟩ := run_net run
  obtain ⟨_, server⟩ := run_server net
  exact Traffic.run_slots (Traffic.run_owns server)

theorem run_inbox (fits : p.mMaxPayloadLength ≤ defaultSize) (run : Run (duplex p) (Proper p) tr s) : Inbox p s := by
  refine run.invariant (I := fun _ s => Inbox p s) (fun _ started => .init started) fun tr s l s' before inbox proper h => ?_
  obtain ⟨_, net⟩ := run_net before
  exact inbox.step (run_mail fits net).numbered (run_slots before) proper h

theorem run_outgoing (run : Run (duplex p) (Proper p) tr s) : Outgoing p s :=
  run.invariant (I := fun _ s => Outgoing p s) (fun _ started => .init started) fun _ _ _ _ _ out proper h => out.step proper h

/-- What a slot's session has been given is what its client has sent, from the first packet on. -/
theorem session_heard {n : Nat} {peer : Peer} (fits : p.mMaxPayloadLength ≤ defaultSize) (inbox : Inbox p s) (out : Outgoing p s)
    (here : s.net.server.server.mSessionList[key]? = some v) (begun : 0 < v.accepted) (at_n : s.net.peers[n]? = some peer)
    (sock : v.acceptedSocket = n + 1) :
    (Session.packets (s.news (n + 1))).map Serializer.decode <+: (s.told peer).map some ∧
      (v.accepted ∈ v.issued →
        ((∃ io ∈ v.recvIo, ∃ cancelled, io.status = .pending cancelled) → s.inbound (n + 1) = s.uplink peer →
          (Session.packets (s.news (n + 1))).map Serializer.decode = (s.told peer).map some) ∧
        ∀ t ∈ v.threads, t.pc = .recvLoop → (Session.packetLoop p.mMaxPayloadLength Traffic.decodes v.RecvBuffer).goesOn = true) := by
  obtain ⟨ring, tr, run, news⟩ := inbox.slots key v here
  obtain ⟨sends, short, uplink, told⟩ := out.framed peer
  have news := news begun
  rw [sock] at news
  have small : v.accepted < 2 ^ 32 := Nat.lt_of_le_of_lt (inbox.known key v here) inbox.range
  have whole : (sends.map fun x => wire x.1 x.2).map Serializer.decode = (s.told peer).map some := by
    rw [← told, List.map_map, List.map_map]
    apply List.map_congr_left
    intro x member
    exact wire_decodes (Nat.le_trans (short x member) fits) x.1
  have good : ∀ f ∈ sends.map fun x => wire x.1 x.2, Session.Proper p.mMaxPayloadLength Traffic.decodes f ∧
      (f.length : Int) < v.RecvBuffer.mCapacity := by
    intro f member
    obtain ⟨x, there, rfl⟩ := List.mem_map.mp member
    have limit := short x there
    refine ⟨Session.wire_proper (Nat.le_trans limit fits) limit x.1, ?_⟩
    rw [ring, wire_length]
    simp only [defaultSize, NetworkHeader.size, RingBuffer.defaultSize] at fits ⊢
    omega
  have came : Session.received (Session.history (Session.newSessionID (p.server.config key) v.accepted) tr) <+:
      (sends.map fun x => wire x.1 x.2).flatten := by
    rw [← news, inbox.came, ← uplink]
    have brought := inbox.brought (n + 1)
    rwa [State.outOf, at_n] at brought
  obtain ⟨begins, nothing⟩ := Session.good_frames_delivered run small good came
  rw [← news] at begins nothing
  refine ⟨whole ▸ begins.map Serializer.decode, fun announced => ?_⟩
  obtain ⟨held, stays⟩ := nothing rfl announced
  refine ⟨?_, stays⟩
  rintro ⟨io, pending, cancelled, status⟩ all
  obtain ⟨later, split⟩ := begins
  cases later with
  | nil => rw [← whole, ← split, List.append_nil]
  | cons f later =>
    -- all has come in, so this frame would be held back
    refine absurd ?_ (held io cancelled pending status f ⟨later, by rw [← split, List.append_assoc]; rfl⟩)
    rw [inbox.came, all, uplink, ← split]
    refine ⟨later.flatten, ?_⟩
    simp

/-- A step tells something to a session that a slot has, or to none. -/
theorem step_news {l : Label} (h : step p s l = some s') (w : Nat) : s'.news w = s.news w ∨
    ∃ (key : Nat) (v : Session.Slot), s'.net.server.server.mSessionList[key]? = some v ∧ 0 < v.accepted ∧ v.acceptedSocket = w := by
  cases l with
  | sendPacket k packet =>
    obtain rfl | ⟨q, -, rfl⟩ := step_sendPacket h
    · exact .inl rfl
    · exact .inl rfl
  | sender k i rand ok =>
    obtain ⟨x, packet, pc, -, -, rfl⟩ := step_sender h
    exact .inl rfl
  | net l =>
    obtain ⟨-, net, taken, rfl⟩ := step_net h
    show report p s l w = _ ∨ _
    unfold report
    split
    next key v l' slot =>
      by_cases own : 0 < v.accepted ∧ w = v.acceptedSocket
      · right
        unfold slotOf at slot
        split at slot
        next key' l j peer =>
          obtain ⟨v₀, here, is⟩ := Option.map_eq_some_iff.mp slot
          obtain ⟨rfl, rfl, rfl⟩ : key' = key ∧ v₀ = v ∧ l = l' := by simpa using is
          obtain ⟨-, server, moved, rfl⟩ := step_server taken
          obtain ⟨s₁, -, moved⟩ := Option.bind_eq_some_iff.mp moved
          obtain ⟨server, advanced, rfl⟩ := Option.map_eq_some_iff.mp moved
          have noaccept (count sock address : Nat) : l ≠ .accept count sock address := by
            rintro rfl
            cases advanced
          have advanced : Server.step p.server s.net.server.server (.at key' l) = some server := advanced
          obtain ⟨x, v', u, here', stepped, rfl, how⟩ := Server.step_at advanced
          obtain rfl := Option.some.inj (here.symm.trans here')
          obtain ⟨accepted, sock⟩ := step_keeps_socket stepped noaccept
          refine ⟨key', v', ?_, accepted ▸ own.1, sock.trans own.2.symm⟩
          have list : (u.put key' v').mSessionList = s.net.server.server.mSessionList.set key' v' := by
            obtain ⟨rfl, -⟩ | ⟨i, ans, t, -, -, rfl⟩ := how
            · rfl
            · show (Server.effect s.net.server.server v₀ t.pc).mSessionList.set key' v' = _
              rw [(Server.effect_same s.net.server.server v₀ t.pc).1]
          show (u.put key' v').mSessionList[key']? = some v'
          rw [list]
          exact List.getElem?_set_self (List.getElem?_eq_some_iff.mp here).1
        · cases slot
      · exact .inl (if_neg own)
    · exact .inl rfl

theorem step_grows {l : Label} (h : step p s l = some s') :
    (∃ more, s'.net.peers = s.net.peers ++ more) ∧ ∀ peer, s.told peer <+: s'.told peer := by
  cases l with
  | sendPacket k packet =>
    obtain rfl | ⟨q, -, rfl⟩ := step_sendPacket h
    · exact ⟨⟨[], (List.append_nil _).symm⟩, fun _ => List.prefix_rfl⟩
    · exact ⟨⟨[], (List.append_nil _).symm⟩, fun _ => List.prefix_rfl⟩
  | sender k i rand ok =>
    obtain ⟨x, packet, pc, -, -, rfl⟩ := step_sender h
    refine ⟨⟨[], (List.append_nil _).symm⟩, fun peer => ?_⟩
    show s.told peer <+: if _ then _ else _
    split
    · exact List.prefix_append ..
    · exact List.prefix_rfl
  | net l =>
    obtain ⟨-, net, taken, rfl⟩ := step_net h
    refine ⟨?_, fun _ => List.prefix_rfl⟩
    cases l with
    | client k l =>
      obtain ⟨-, c, -, rfl⟩ := step_client taken
      exact ⟨[], (List.append_nil _).symm⟩
    | server l peer =>
      obtain ⟨-, server, -, rfl⟩ := step_server taken
      by_cases accepting : accepts l = true
      · exact ⟨[peer], if_pos accepting⟩
      · exact ⟨[], (if_neg accepting).trans (List.append_nil _).symm⟩

theorem heard_in_order (fits : p.mMaxPayloadLength ≤ defaultSize) (run : Run (duplex p) (Proper p) tr s) :
    ∀ (n : Nat) (peer : Peer), s.net.peers[n]? = some peer →
      (Session.packets (s.news (n + 1))).map Serializer.decode <+: (s.told peer).map some := by
  refine run.invariant (I := fun _ s => ∀ (n : Nat) (peer : Peer), s.net.peers[n]? = some peer →
    (Session.packets (s.news (n + 1))).map Serializer.decode <+: (s.told peer).map some) (fun s started n peer _ => ?_)
    fun tr s l s' before heard proper h n peer at_n => ?_
  · have started : Started p s := started
    rw [started.unused.2.2.2.2]
    exact List.nil_prefix
  have after := before.step proper h
  have h : step p s l = some s' := h
  obtain ⟨⟨more, peers⟩, told⟩ := step_grows h
  rcases step_news h (n + 1) with still | ⟨key, v, here, begun, sock⟩
  · rw [still]
    by_cases old : n < s.net.peers.length
    · rw [peers, List.getElem?_append_left old] at at_n
      exact (heard n peer at_n).trans ((told peer).map some)
    · -- the peer has just been accepted
      obtain ⟨_, net⟩ := run_net before
      have counted := (run_mail fits net).counted
      rw [(run_inbox fits before).silent (n + 1) (by omega)]
      exact List.nil_prefix
  · exact (session_heard fits (run_inbox fits after) (run_outgoing after) here begun at_n sock).1

/-- In every run of a server and its clients: what the server's `OnReceive` gets for a session are the payloads of the
packets that its client has sent on the connection, in their order and from the first on; all of them once all bytes have
come in and the session waits for more; and no session is closed for what its client sent. -/
theorem sent_packets_reach_sessions (fits : p.mMaxPayloadLength ≤ defaultSize) (run : Run (duplex p) (Proper p) tr s) :
    (∀ n peer, s.net.peers[n]? = some peer →
        (Session.packets (s.news (n + 1))).map Serializer.decode <+: (s.told peer).map some) ∧
      ∀ v ∈ s.net.server.server.mSessionList, 0 < v.accepted → v.accepted ∈ v.issued →
        ∀ n peer, s.net.peers[n]? = some peer → v.acceptedSocket = n + 1 →
          ((∃ io ∈ v.recvIo, ∃ cancelled, io.status = .pending cancelled) → s.inbound (n + 1) = s.uplink peer →
            (Session.packets (s.news (n + 1))).map Serializer.decode = (s.told peer).map some) ∧
          ∀ t ∈ v.threads, t.pc = .recvLoop → (Session.packetLoop p.mMaxPayloadLength Traffic.decodes v.RecvBuffer).goesOn = true := by
  refine ⟨heard_in_order fits run, fun v inside begun announced n peer at_n sock => ?_⟩
  obtain ⟨key, here⟩ := List.mem_iff_getElem?.mp inside
  exact (session_heard fits (run_inbox fits run) (run_outgoing run) here begun at_n sock).2 announced

def freshDuplex : State := { net := freshNetwork }

theorem freshDuplex_started : Started Traffic.plainTraffic freshDuplex := by
  refine ⟨freshNetwork_started, fun v member => ?_, fun _ => rfl, fun _ => rfl, fun _ => rfl, fun _ => rfl, fun _ => rfl⟩
  obtain rfl := List.mem_singleton.mp member
  rfl

def sevenPacket : Packet :=
  ((Packet.alloc { memory := List.Vector.replicate _ 0 }).shiftLeft (.unsignedInt 7)).toOption.getD { memory := List.Vector.replicate _ 0 }

/-- A client connects, is accepted, and sends the number 7. -/
def sevenSentUp : List Label := (NetClient.connects 0 8).map (fun l => .net (.client 0 l)) ++
  (Traffic.serverSteps (Server.firstClient ++ List.replicate 4 (.at 0 (.thread 0 .go)) ++ .at 0 (.thread 0 .pending) ::
    List.replicate 3 (.at 0 (.thread 0 .go)))).map (fun l => .net (.server l ⟨0, 0⟩)) ++
  .sendPacket 0 (some sevenPacket) :: List.replicate 4 (.sender 0 0 3 true) ++
  (Traffic.serverSteps (.at 0 (.recvCompletes 0 (wire 3 [7, 0, 0, 0])) :: .at 0 (.workRecv 0) ::
    List.replicate 4 (.at 0 (.thread 1 .go)))).map (fun l => .net (.server l ⟨0, 0⟩))

theorem seven_comes_in : ∃ (tr : List (State × Label)) (s : State), tr.map Prod.snd = sevenSentUp ∧
    [some [7, 0, 0, 0]] <+: (s.told ⟨0, 0⟩).map some := by
  have along : Along (duplex Traffic.plainTraffic) (Proper Traffic.plainTraffic) freshDuplex sevenSentUp := by decide +kernel
  obtain ⟨s, reached, run⟩ := Run.along (.init freshDuplex_started) along
  have facts : (exec (duplex Traffic.plainTraffic) freshDuplex sevenSentUp).map (fun s => (s.net.peers,
      (Session.packets (s.news 1)).map Serializer.decode)) = some ([⟨0, 0⟩], [some [7, 0, 0, 0]]) := by decide +kernel
  rw [reached] at facts
  simp only [Option.map_some, Option.some.injEq, Prod.mk.injEq] at facts
  obtain ⟨peers, heard⟩ := facts
  have prefixed := (sent_packets_reach_sessions (by decide) run).1 0 ⟨0, 0⟩ (by rw [peers]; rfl)
  rw [heard] at prefixed
  exact ⟨_, s, trace_labels reached, prefixed⟩

end WanNet.Duplex
