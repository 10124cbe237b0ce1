import WanNet.Network.Model

/-!
From `SendPacket` at a server to `OnReceive` at a client: the payloads that come out there are those
that went in here, in the same order.
-/

namespace WanNet.Network
open Transition Serializer Framing NetClient

variable {p : Traffic.Params} {s s' : State} {key k : Nat} {v v' : Session.Slot} {t : Session.Thread} {tr : List (State × Label)}

/-! ### Sockets -/

/-- No two sessions of the slots have one socket. -/
structure Numbered (s : Server.NetServer) : Prop where
  known : ∀ (key : Nat) (v : Session.Slot), s.mSessionList[key]? = some v → 0 < v.accepted → v.acceptedSocket ≤ s.clients
  apart : ∀ (key key' : Nat) (v v' : Session.Slot), s.mSessionList[key]? = some v → s.mSessionList[key']? = some v' →
    0 < v.accepted → 0 < v'.accepted → v.acceptedSocket = v'.acceptedSocket → key = key'

theorem Numbered.init {s : Server.NetServer} (started : Server.Started s) : Numbered s := by
  have unused (key : Nat) (v : Session.Slot) (here : s.mSessionList[key]? = some v) : v.accepted = 0 :=
    (started.slots v (List.mem_of_getElem? here)).1.unused.2.1
  refine ⟨fun key v here begun => ?_, fun key key' v v' here _ begun => ?_⟩
  all_goals
    have := unused key v here
    omega

theorem step_keeps_socket {cfg : Session.Config} {l : Session.Label} (h : Session.step cfg v l = some v')
    (noaccept : ∀ count sock address, l ≠ .accept count sock address) :
    v'.accepted = v.accepted ∧ v'.acceptedSocket = v.acceptedSocket := by
  by_cases threaded : ∃ i ans, l = .thread i ans
  · obtain ⟨i, ans, rfl⟩ := threaded
    obtain ⟨t, u, pc', -, taken, rfl⟩ := Session.step_thread h
    obtain ⟨accepted, sock, -⟩ := Session.next_accepted taken
    exact ⟨accepted, sock⟩
  · obtain ⟨⟨accepted, sock, -⟩, -⟩ := Session.step_elsewhere h (fun i ans is => threaded ⟨i, ans, is⟩) noaccept
    exact ⟨accepted, sock⟩

/-- A slot that goes on with its session. -/
theorem Numbered.put {s s' : Server.NetServer} (numbered : Numbered s) (here : s.mSessionList[key]? = some v)
    (list : s'.mSessionList = s.mSessionList.set key v') (clients : s'.clients = s.clients)
    (accepted : v'.accepted = v.accepted) (sock : v'.acceptedSocket = v.acceptedSocket) : Numbered s' := by
  have old {n : Nat} {w : Session.Slot} (at_n : s'.mSessionList[n]? = some w) :
      ∃ u, s.mSessionList[n]? = some u ∧ u.accepted = w.accepted ∧ u.acceptedSocket = w.acceptedSocket := by
    rw [list] at at_n
    rcases Threads.at_set at_n with ⟨rfl, rfl⟩ | ⟨-, old⟩
    · exact ⟨v, here, accepted.symm, sock.symm⟩
    · exact ⟨w, old, rfl, rfl⟩
  constructor
  · intro n w at_n begun
    obtain ⟨u, at_n, accepted, sock⟩ := old at_n
    rw [clients, ← sock]
    exact numbered.known n u at_n (by omega)
  · intro n m w x at_n at_m begun begun' same
    obtain ⟨u, at_n, accepted, sock⟩ := old at_n
    obtain ⟨y, at_m, accepted', sock'⟩ := old at_m
    exact numbered.apart n m u y at_n at_m (by omega) (by omega) (by omega)

/-- A slot whose next session has the next socket. -/
theorem Numbered.accept {s s' : Server.NetServer} (numbered : Numbered s) (list : s'.mSessionList = s.mSessionList.set key v')
    (clients : s'.clients = s.clients + 1) (sock : v'.acceptedSocket = s.clients + 1) : Numbered s' := by
  constructor
  · intro n w at_n begun
    rw [list] at at_n
    rw [clients]
    rcases Threads.at_set at_n with ⟨rfl, rfl⟩ | ⟨-, old⟩
    · omega
    · have := numbered.known n w old begun
      omega
  · intro n m w x at_n at_m begun begun' same
    rw [list] at at_n at_m
    rcases Threads.at_set at_n with ⟨rfl, rfl⟩ | ⟨-, old⟩ <;> rcases Threads.at_set at_m with ⟨rfl, rfl⟩ | ⟨-, old'⟩
    · rfl
    · have := numbered.known m x old' begun'
      omega
    · have := numbered.known n w old begun
      omega
    · exact numbered.apart n m w x old old' begun begun' same

/-! ### Bytes -/

/-- The packets of a `wsabuf` are the frames of their payloads. -/
theorem bytes_framed {s : Traffic.State} {wsabuf : List Session.Queued}
    (framed : ∀ q ∈ wsabuf, Traffic.Framed (s.pool.object q.packet) (s.payload q.packet)) :
    ∃ sends, (∀ x ∈ sends, x.2.length ≤ defaultSize) ∧ bytes s wsabuf = (framesOf sends).flatMap Prod.fst ∧
      sends.map Prod.snd = wsabuf.map (payloads s) := by
  induction wsabuf with
  | nil => exact ⟨[], by simp, rfl, rfl⟩
  | cons q wsabuf ih =>
    obtain ⟨sends, fits, same, told⟩ := ih fun q member => framed q (.tail _ member)
    obtain ⟨short, rand, sent⟩ := framed q (.head _)
    refine ⟨(rand, s.payload q.packet) :: sends, ?_, ?_, ?_⟩
    · intro x member
      rcases List.mem_cons.mp member with rfl | old
      · exact short
      · exact fits x old
    · have own : (s.pool.object q.packet).sent.toOption.getD [] = wire rand (s.payload q.packet) := by
        rw [sent]
        rfl
      show (s.pool.object q.packet).sent.toOption.getD [] ++ bytes s wsabuf = wire rand (s.payload q.packet) ++ (framesOf sends).flatMap Prod.fst
      rw [own, same]
    · rw [List.map_cons, List.map_cons, told]
      rfl

theorem framesOf_append (sends more : List (UInt8 × List UInt8)) : framesOf (sends ++ more) = framesOf sends ++ framesOf more :=
  List.map_append

/-! ### What the server has sent -/

/-- Every session's packets are on their way in the order in which they were enqueued, and what has left is their frames. -/
structure Mail (s : State) : Prop where
  once : s.peers.Nodup
  counted : s.peers.length = s.server.server.clients
  numbered : Numbered s.server.server
  silent : ∀ w, s.server.server.clients < w → s.outbox w = {}
  ordered : ∀ (key : Nat) (v : Session.Slot), s.server.server.mSessionList[key]? = some v → 0 < v.accepted →
    Session.Ordered (payloads s.server) (s.outbox v.acceptedSocket) v
  framed : ∀ w, ∃ sends, (∀ x ∈ sends, x.2.length ≤ defaultSize) ∧ s.outgoing w = (framesOf sends).flatMap Prod.fst ∧
    sends.map Prod.snd = (s.outbox w).sent
  begins : ∀ w, (s.outbox w).sent <+: (s.outbox w).enqueued

theorem Mail.init (started : Started p s) : Mail s := by
  obtain ⟨peers, outgoing, outbox⟩ := started.unused
  have server := started.server.server.1
  refine ⟨?_, ?_, .init server, fun w _ => outbox w, fun key v here begun => ?_, fun w => ⟨[], by simp, outgoing w, ?_⟩, fun w => ?_⟩
  · rw [peers]
    exact List.nodup_nil
  · rw [peers, server.unused.1]
    rfl
  · have := (server.slots v (List.mem_of_getElem? here)).1.unused.2.1
    omega
  · rw [outbox]
    rfl
  · rewrite [outbox]
    exact List.nil_prefix

theorem payloads_same {a b : Traffic.State} (same : a.payload = b.payload) : payloads a = payloads b := by
  unfold payloads
  rw [same]

/-- The application and the calls that prepare packets leave alone what is on its way. -/
theorem Mail.prepares {server : Traffic.State} (mail : Mail s) (same : server.server = s.server.server)
    (paid : ∀ v ∈ s.server.server.mSessionList, ∀ q, Traffic.Leaving v q → server.payload q.packet = s.server.payload q.packet) :
    Mail { s with server := server } := by
  refine ⟨mail.once, ?_, ?_, ?_, fun key v here begun => ?_, mail.framed, mail.begins⟩
  · show s.peers.length = server.server.clients
    rw [same]
    exact mail.counted
  · show Numbered server.server
    rw [same]
    exact mail.numbered
  · show ∀ w, server.server.clients < w → s.outbox w = {}
    rw [same]
    exact mail.silent
  · have here : server.server.mSessionList[key]? = some v := here
    rw [same] at here
    apply (mail.ordered key v here begun).congr
    intro q member
    apply paid v (List.mem_of_getElem? here) q
    rcases List.mem_append.mp member with batch | queued
    · obtain ⟨t, inside, holds⟩ := List.mem_flatMap.mp batch
      exact .inr (.inl ⟨t, inside, holds⟩)
    · exact .inl queued

theorem idle_of_unbegun {q : Server.Params} {s : Server.NetServer} (slots : Server.Slots q s) (here : s.mSessionList[key]? = some v)
    (unbegun : v.accepted = 0) : Session.weigh Session.acting v = 0 := by
  obtain ⟨_, run⟩ := slots.slots key v here
  by_contra busy
  obtain ⟨t, member, acts⟩ := Threads.exists_of_total_pos (Nat.pos_of_ne_zero busy)
  obtain ⟨sep, -⟩ := slots.registration here
  have live := (sep.identified.working sep.counts member acts).1
  have used : 0 < v.inits := (ReleaseCount.Core.live_eq_one.mp live).2
  have := Server.run_begun run (by omega)
  omega

/-- A slot takes a step of its session. -/
theorem Mail.goes_on {u : State} {l : Session.Label} (mail : Mail s) (slots : Server.Slots p.server s.server.server)
    (here : s.server.server.mSessionList[key]? = some v) (taken : Session.step (p.server.config key) v l = some v')
    (noaccept : ∀ count sock address, l ≠ .accept count sock address) (peers : u.peers = s.peers)
    (list : u.server.server.mSessionList = s.server.server.mSessionList.set key v') (clients : u.server.server.clients = s.server.server.clients)
    (paid : u.server.payload = s.server.payload)
    (told : ∀ w, u.outbox w = if w = v.acceptedSocket then (s.outbox w).add (payloads s.server) v l else s.outbox w)
    (framed : ∀ w, ∃ sends, (∀ x ∈ sends, x.2.length ≤ defaultSize) ∧ u.outgoing w = (framesOf sends).flatMap Prod.fst ∧
      sends.map Prod.snd = (u.outbox w).sent) : Mail u := by
  obtain ⟨accepted, sock⟩ := step_keeps_socket taken noaccept
  obtain ⟨sep, reg⟩ := slots.registration here
  have unchanged (unbegun : v.accepted = 0) (w : Nat) : u.outbox w = s.outbox w := by
    have idle := idle_of_unbegun slots here unbegun
    rw [told, Session.add_idle idle noaccept]
    exact ite_self _
  have own (begun : 0 < v.accepted) : Session.Ordered (payloads s.server) (u.outbox v.acceptedSocket) v' := by
    rw [told, if_pos rfl]
    exact (mail.ordered key v here begun).step sep reg (Session.countable_of_exact rfl) taken
  refine ⟨?_, ?_, ?_, fun w beyond => ?_, fun n x at_n begun => ?_, framed, fun w => ?_⟩
  · rw [peers]
    exact mail.once
  · rw [peers, clients]
    exact mail.counted
  · exact mail.numbered.put here list clients accepted sock
  · rw [clients] at beyond
    by_cases begun : 0 < v.accepted
    · have known := mail.numbered.known key v here begun
      rw [told, if_neg (by omega)]
      exact mail.silent w beyond
    · rw [unchanged (by omega)]
      exact mail.silent w beyond
  · rw [payloads_same paid]
    rw [list] at at_n
    rcases Threads.at_set at_n with ⟨rfl, rfl⟩ | ⟨other, old⟩
    · rw [sock]
      exact own (by omega)
    · have ordered := mail.ordered n x old begun
      by_cases both : 0 < v.accepted
      · have apart : x.acceptedSocket ≠ v.acceptedSocket := fun same => other (mail.numbered.apart n key x v old here begun both same)
        rw [told, if_neg apart]
        exact ordered
      · rw [unchanged (by omega)]
        exact ordered
  · by_cases begun : 0 < v.accepted
    · by_cases mine : w = v.acceptedSocket
      · rw [mine]
        exact (own begun).begins
      · rw [told, if_neg mine]
        exact mail.begins w
    · rw [unchanged (by omega)]
      exact mail.begins w

/-- What a thread gives to `WSASend` are the frames of its packets, and goes to the socket of its session. -/
theorem Mail.gives {ans : Session.Answer} {i : Nat} (mail : Mail s) (j : Nat) (contents : Traffic.Contents s.server) (ledger : Traffic.Ledger s.server)
    (slots : Server.Slots p.server s.server.server) (here : s.server.server.mSessionList[key]? = some v) (at_i : v.threads[i]? = some t)
    (w : Nat) : ∃ sends, (∀ x ∈ sends, x.2.length ≤ defaultSize) ∧
      transmit s (.server (.at key (.thread i ans)) j) w = (framesOf sends).flatMap Prod.fst ∧
      sends.map Prod.snd = (record s (.server (.at key (.thread i ans)) j) w).sent := by
  obtain ⟨sends, fits, out, told⟩ := mail.framed w
  have there := Traffic.threadAt_eq here at_i
  have adds : (s.outbox w).add (payloads s.server) v (.thread i ans) = (s.outbox w).thread (payloads s.server) t ans := by
    simp [Session.Outbox.add, at_i]
  simp only [transmit, record, there, here, adds]
  by_cases none : Session.given t ans = []
  · refine ⟨sends, fits, ?_, ?_⟩
    · rw [none]
      split
      · rw [← out]
        exact List.append_nil _
      · exact out
    · split
      · rw [Session.thread_sent, none, List.map_nil, List.append_nil]
        exact told
      · exact told
  · have sending := Session.given_some none
    have member := List.mem_of_getElem? at_i
    have socket := ((slots.registration here).1.socket member sending).2
    have framed (q : Session.Queued) (gives : q ∈ Session.given t ans) :
        Traffic.Framed (s.server.pool.object q.packet) (s.server.payload q.packet) := by
      have leaves : Traffic.Leaving v q := by
        refine .inr (.inl ⟨t, member, ?_⟩)
        rw [sending]
        exact gives
      have kept := Traffic.kept_of_leaving slots (List.mem_of_getElem? here) leaves
      exact contents.framed _ (ledger.used slots (.inr (.inr kept))) (contents.kept _ kept)
    obtain ⟨more, fits', same, told'⟩ := bytes_framed framed
    rw [socket]
    by_cases mine : w = v.acceptedSocket
    · rw [if_pos mine, if_pos mine]
      refine ⟨sends ++ more, ?_, ?_, ?_⟩
      · intro x member
        exact (List.mem_append.mp member).elim (fits x) (fits' x)
      · rw [framesOf_append, List.flatMap_append, out, same]
      · rw [Session.thread_sent, List.map_append, told, told']
    · rw [if_neg mine, if_neg mine]
      exact ⟨sends, fits, out, told⟩

/-- The next client is accepted. -/
theorem Mail.admits {address : Nat} {peer : Peer} {server : Server.NetServer} (mail : Mail s) (new : peer ∉ s.peers)
    (h : Server.step p.server s.server.server (.accept address) = some server) :
    Mail { s with server := { s.server with server := server }, peers := s.peers ++ [peer] } := by
  have once : (s.peers ++ [peer]).Nodup := by
    rw [List.nodup_append_comm]
    exact List.nodup_cons.mpr ⟨new, mail.once⟩
  have counted : (s.peers ++ [peer]).length = s.server.server.clients + 1 := by
    rw [List.length_append, mail.counted]
    rfl
  obtain ⟨-, ⟨-, rfl⟩ | ⟨newSessionKey, rest, v, v', -, here, taken, rfl⟩⟩ := Server.step_accept h
  · refine ⟨once, counted, ⟨fun n x at_n begun => ?_, mail.numbered.apart⟩, fun w beyond => ?_, mail.ordered, mail.framed, mail.begins⟩
    · exact Nat.le_succ_of_le (mail.numbered.known n x at_n begun)
    · exact mail.silent w (Nat.lt_of_succ_lt beyond)
  · have sock : v'.acceptedSocket = s.server.server.clients + 1 := congrArg Session.Slot.acceptedSocket (Session.step_accept taken).2
    refine ⟨once, counted, mail.numbered.accept rfl rfl sock, fun w beyond => ?_, fun n x at_n begun => ?_, mail.framed, mail.begins⟩
    · exact mail.silent w (Nat.lt_of_succ_lt beyond)
    · rcases Threads.at_set at_n with ⟨rfl, rfl⟩ | ⟨-, old⟩
      · show Session.Ordered _ (s.outbox x.acceptedSocket) x
        rw [sock, mail.silent _ (Nat.lt_succ_self _)]
        exact .accept taken
      · exact mail.ordered n x old begun

theorem Mail.step_server {l : Traffic.Label} {peer : Peer} {server : Traffic.State} (mail : Mail s) (contents : Traffic.Contents s.server)
    (ledger : Traffic.Ledger s.server) (slots : Server.Slots p.server s.server.server) (fits : p.mMaxPayloadLength ≤ defaultSize)
    (proper : Traffic.Proper p s.server l) (new : accepts l = true → peer ∉ s.peers) (h : Traffic.step p s.server l = some server) :
    Mail { s with
      server := server
      peers := if accepts l = true then s.peers ++ [peer] else s.peers
      outgoing := transmit s l
      outbox := record s l } := by
  have paid (v : Session.Slot) (inside : v ∈ s.server.server.mSessionList) (q : Session.Queued) (leaves : Traffic.Leaving v q) :
      server.payload q.packet = s.server.payload q.packet :=
    (contents.stays ledger slots fits proper.1 proper.2 h (Traffic.kept_of_leaving slots inside leaves)).2
  cases l with
  | alloc j =>
    obtain rfl := Option.some.inj h
    exact mail.prepares rfl paid
  | free packet =>
    obtain rfl := Option.some.inj h
    exact mail.prepares rfl paid
  | use packet call =>
    obtain ⟨r, -, rfl⟩ := Option.map_eq_some_iff.mp h
    exact mail.prepares rfl paid
  | prepare key i rand =>
    obtain ⟨⟨v, t⟩, -, h⟩ := Option.bind_eq_some_iff.mp h
    obtain ⟨packet, -, h⟩ := Option.bind_eq_some_iff.mp h
    refine mail.prepares ?_ paid
    cases Traffic.prepare_cases h <;> rfl
  | server l j =>
    obtain ⟨s₁, acted, h⟩ := Option.bind_eq_some_iff.mp h
    obtain ⟨server, taken, rfl⟩ := Option.map_eq_some_iff.mp h
    obtain ⟨-, payload, -⟩ := (Traffic.act_cases acted).same
    cases l with
    | accept address =>
      have accepted := mail.admits (new rfl) taken
      exact ⟨accepted.once, accepted.counted, accepted.numbered, accepted.silent, fun key v here begun =>
        (payloads_same payload) ▸ accepted.ordered key v here begun, accepted.framed, accepted.begins⟩
    | call request sessionID =>
      obtain ⟨rfl, -⟩ | ⟨call, key, v, v', -, -, here, slot, rfl⟩ := Server.step_call taken
      · exact mail.prepares rfl paid
      · exact mail.goes_on slots here slot (by simp) rfl rfl rfl payload (fun w => (ite_self _).symm) mail.framed
    | «at» key l =>
      have noaccept (count sock address : Nat) : l ≠ .accept count sock address := by
        rintro rfl
        cases taken
      obtain ⟨v, v', w, here, slot, rfl, how⟩ := Server.step_at taken
      have told (n : Nat) : record s (.server (.at key l) j) n =
          if n = v.acceptedSocket then (s.outbox n).add (payloads s.server) v l else s.outbox n := by
        simp only [record, here]
      rcases how with ⟨rfl, outside⟩ | ⟨i, ans, t, rfl, at_i, rfl⟩
      · refine mail.goes_on slots here slot noaccept rfl rfl rfl payload told fun n => ?_
        have quiet : transmit s (.server (.at key l) j) = s.outgoing ∧ (s.outbox n).add (payloads s.server) v l = s.outbox n := by
          cases l with
          | accept count sock address => exact absurd rfl (noaccept count sock address)
          | thread i ans => exact absurd rfl (outside i ans)
          | _ => exact ⟨rfl, rfl⟩
        show ∃ sends, _ ∧ transmit s (.server (.at key l) j) n = _ ∧ _ = (record s (.server (.at key l) j) n).sent
        rw [told, quiet.1, quiet.2, ite_self]
        exact mail.framed n
      · obtain ⟨list, -, clients, -⟩ := Server.effect_same s.server.server v t.pc
        refine mail.goes_on slots here slot noaccept rfl ?_ clients payload told fun n => mail.gives j contents ledger slots here at_i n
        show (Server.effect s.server.server v t.pc).mSessionList.set key v' = _
        rw [list]

theorem run_mail (fits : p.mMaxPayloadLength ≤ defaultSize) (run : Run (network p) (Proper p) tr s) : Mail s := by
  refine run.invariant (I := fun _ s => Mail s) (fun s started => .init started) fun tr s l s' before mail proper h => ?_
  have h : step p s l = some s' := h
  cases l with
  | server l peer =>
    obtain ⟨new, server, taken, rfl⟩ := step_server h
    obtain ⟨_, run⟩ := run_server before
    have owned := Traffic.run_owns run
    exact mail.step_server (Traffic.run_contents fits run) (Traffic.run_ledger owned) (Traffic.run_slots owned) fits proper new taken
  | client k l =>
    obtain ⟨-, c, -, rfl⟩ := step_client h
    exact ⟨mail.once, mail.counted, mail.numbered, mail.silent, mail.ordered, mail.framed, mail.begins⟩

/-! ### What has come in -/

/-- A client's stream grows by what its `recv` brings. -/
theorem step_streams_grow {c c' : Client} {l : NetClient.Label} (h : NetClient.step c l = some c') (n : Nat) :
    c'.streams n = c.streams n ∨ ∃ data, received c l = some (n, data) ∧ c'.streams n = c.streams n ++ data := by
  cases l with
  | connect | disconnect =>
    simp only [NetClient.step] at h
    split at h
    · cases h
    · cases h
      exact .inl rfl
  | thread i answer =>
    simp only [NetClient.step] at h
    split at h
    · cases h
    cases at_i : c.threads[i]? with
    | none => simp [at_i] at h
    | some t =>
      cases t with
      | connect pc =>
        simp only [at_i] at h
        obtain ⟨⟨u, pc', child⟩, moved, rfl⟩ := Option.map_eq_some_iff.mp h
        obtain ⟨-, -, ⟨streams, -, -⟩, -⟩ := connect_step moved
        exact .inl (congrFun streams n)
      | disconnect pc =>
        simp only [at_i] at h
        obtain ⟨⟨u, pc'⟩, moved, rfl⟩ := Option.map_eq_some_iff.mp h
        exact .inl (congrFun (disconnect_step moved).1 n)
      | recvThread m pc d =>
        simp only [at_i] at h
        obtain ⟨⟨u, pc', d'⟩, moved, rfl⟩ := Option.map_eq_some_iff.mp h
        rcases recvThread_step moved with ⟨streams, -, -⟩ | ⟨socket, data, rfl, rfl, some_bytes⟩
        · exact .inl (congrFun streams n)
        · simp only [NetClient.recvThread, if_neg some_bytes] at moved
          split at moved
          · cases moved
          next connection lookup =>
            split at moved
            · cases moved
              by_cases mine : n = connection
              · subst mine
                exact .inr ⟨data, by simp [received, at_i, lookup], if_pos rfl⟩
              · exact .inl (if_neg mine)
            · cases moved

theorem transmit_grows (s : State) (l : Traffic.Label) (w : Nat) : s.outgoing w <+: transmit s l w := by
  unfold transmit
  split
  · split
    · split
      · exact List.prefix_append ..
      · exact List.prefix_rfl
    · exact List.prefix_rfl
  · exact List.prefix_rfl

theorem incoming_grows (peers : ∃ more, s'.peers = s.peers ++ more) (outgoing : ∀ w, s.outgoing w <+: s'.outgoing w) (peer : Peer) :
    s.incoming peer <+: s'.incoming peer := by
  obtain ⟨more, peers⟩ := peers
  unfold State.incoming
  by_cases known : peer ∈ s.peers
  · rw [if_pos known, if_pos (by rw [peers]; exact List.mem_append_left _ known), peers, List.idxOf_append_of_mem known]
    exact outgoing _
  · rw [if_neg known]
    exact List.nil_prefix

/-- No client has bytes that the server has not sent to it. -/
theorem run_came (k c : Nat) (run : Run (network p) (Proper p) tr s) : (s.clients k).streams c <+: s.incoming ⟨k, c⟩ := by
  refine run.invariant (I := fun _ s => (s.clients k).streams c <+: s.incoming ⟨k, c⟩) (fun s started => ?_)
    fun tr s l s' before came proper h => ?_
  · have started : Started p s := started
    obtain ⟨mem, fresh⟩ := started.clients k
    rw [fresh]
    exact List.nil_prefix
  have h : step p s l = some s' := h
  cases l with
  | server l peer =>
    obtain ⟨-, server, -, rfl⟩ := step_server h
    refine came.trans (incoming_grows ?_ (transmit_grows s l) _)
    by_cases accepting : accepts l = true
    · exact ⟨[peer], if_pos accepting⟩
    · exact ⟨[], (if_neg accepting).trans (List.append_nil _).symm⟩
  | client n l =>
    obtain ⟨brought, u, taken, rfl⟩ := step_client h
    show (if k = n then u else s.clients k).streams c <+: s.incoming ⟨k, c⟩
    by_cases mine : k = n
    · subst mine
      rw [if_pos rfl]
      rcases step_streams_grow taken c with still | ⟨data, takes, grows⟩
      · rw [still]
        exact came
      · rw [grows]
        exact brought _ takes
    · rw [if_neg mine]
      exact came

/-! ### From `SendPacket` to `OnReceive` -/

/-- Every client's bytes are those of some packets. -/
theorem honest_streams (mail : Mail s) (came : (s.clients k).streams c <+: s.incoming ⟨k, c⟩) :
    ∃ sends, Honest ((s.clients k).streams c) sends ∧
      ∀ n, s.peers[n]? = some ⟨k, c⟩ →
        s.outgoing (n + 1) = (framesOf sends).flatMap Prod.fst ∧ sends.map Prod.snd = (s.outbox (n + 1)).sent := by
  unfold State.incoming at came
  by_cases known : (⟨k, c⟩ : Peer) ∈ s.peers
  · rw [if_pos known] at came
    obtain ⟨sends, fits, out, told⟩ := mail.framed (s.peers.idxOf ⟨k, c⟩ + 1)
    refine ⟨sends, ⟨fits, by rw [← out]; exact came⟩, fun n at_n => ?_⟩
    have index : s.peers.idxOf ⟨k, c⟩ = n := by
      obtain ⟨lt, is⟩ := List.getElem?_eq_some_iff.mp at_n
      rw [← is]
      exact mail.once.idxOf_getElem n lt
    rw [← index]
    exact ⟨out, told⟩
  · rw [if_neg known] at came
    refine ⟨[], ⟨by simp, came⟩, fun n at_n => absurd (List.mem_of_getElem? at_n) known⟩

/-- In every run of a server and its clients, no client's assertion fails; what a client's `OnReceive` gets on a
connection are the payloads of the packets that calls have enqueued for the session that the server has for it, in their
order and from the first on; all that has been sent when all bytes have come in; and nothing from a connection that
has not been accepted. What has not been sent yet is still with the session, unless a `WSASend` has failed. -/
theorem enqueued_packets_arrive (fits : p.mMaxPayloadLength ≤ defaultSize) (run : Run (network p) (Proper p) tr s) :
    (∀ k, (s.clients k).died = false) ∧
      (∀ k c pc d, .recvThread c pc d ∈ (s.clients k).threads → (⟨k, c⟩ ∉ s.peers → d = []) ∧
        ∀ n, s.peers[n]? = some ⟨k, c⟩ → d <+: (s.outbox (n + 1)).enqueued ∧
          ((s.clients k).streams c = s.outgoing (n + 1) → d = (s.outbox (n + 1)).sent)) ∧
      ∀ v ∈ s.server.server.mSessionList, 0 < v.accepted → (∀ t ∈ v.threads, Session.washing t.pc = 0) →
        (s.outbox v.acceptedSocket).failed = false → (s.outbox v.acceptedSocket).enqueued =
          (s.outbox v.acceptedSocket).sent ++ (Session.batches v ++ v.SendQueue).map (payloads s.server) := by
  have mail := run_mail fits run
  have arrives (k : Nat) : (s.clients k).died = false ∧ ∀ c pc d sends, .recvThread c pc d ∈ (s.clients k).threads →
      Honest ((s.clients k).streams c) sends → ∃ sent later tail,
        Cut (framesOf sends) ((s.clients k).streams c) sent later tail ∧ d = sent.map Prod.snd := by
    obtain ⟨_, own⟩ := run_client k run
    refine sent_packets_arrive own fun c => ?_
    obtain ⟨sends, honest, -⟩ := honest_streams mail (run_came k c run)
    exact ⟨sends, honest⟩
  refine ⟨fun k => (arrives k).1, fun k c pc d member => ⟨fun unknown => ?_, fun n at_n => ?_⟩, fun v inside begun settled good => ?_⟩
  · have came := run_came k c run
    rw [State.incoming, if_neg unknown] at came
    obtain ⟨sent, later, tail, is, rfl⟩ := (arrives k).2 c pc d [] member ⟨by simp, came⟩
    have none : sent ++ later = [] := is.frames.symm
    rw [(List.append_eq_nil_iff.mp none).1]
    rfl
  · obtain ⟨sends, honest, told⟩ := honest_streams mail (run_came k c run)
    obtain ⟨out, told⟩ := told n at_n
    obtain ⟨sent, later, tail, is, rfl⟩ := (arrives k).2 c pc d sends member honest
    have split : (s.outbox (n + 1)).sent = sent.map Prod.snd ++ later.map Prod.snd := by
      rw [← told, ← List.map_append, ← is.frames, framesOf, List.map_map]
      rfl
    refine ⟨List.IsPrefix.trans ⟨_, split.symm⟩ (mail.begins _), fun all => ?_⟩
    rw [split, is.whole (all.trans out), List.map_nil, List.append_nil]
  · obtain ⟨key, here⟩ := List.mem_iff_getElem?.mp inside
    exact (mail.ordered key v here begun).whole (Threads.total_eq_zero.mpr settled) good

def freshNetwork : State := { server := Traffic.freshTraffic, clients := fun _ => newClient }

theorem freshNetwork_started : Started Traffic.plainTraffic freshNetwork :=
  ⟨Traffic.freshTraffic_started, fun _ => newClient_init, rfl, fun _ => rfl, fun _ => rfl⟩

/-- A client connects and is sent the number 7. -/
def sevenArrives : List Label := (connects 0 8).map (.client 0) ++ Traffic.sevenSent.map (.server · ⟨0, 0⟩) ++
  (moves 1 [.none, .bytes (wire 3 [7, 0, 0, 0])]).map (.client 0)

theorem seven_arrives : ∃ (tr : List (State × Label)) (s : State), tr.map Prod.snd = sevenArrives ∧ (s.clients 0).died = false ∧
    [[7, 0, 0, 0]] <+: (s.outbox 1).enqueued := by
  have along : Along (network Traffic.plainTraffic) (Proper Traffic.plainTraffic) freshNetwork sevenArrives := by decide +kernel
  obtain ⟨s, reached, run⟩ := Run.along (.init freshNetwork_started) along
  have facts : (exec (network Traffic.plainTraffic) freshNetwork sevenArrives).map (fun s => (s.peers, (s.clients 0).threads[1]?)) =
      some ([⟨0, 0⟩], some (.recvThread 0 .readSocket [[7, 0, 0, 0]])) := by decide +kernel
  rw [reached] at facts
  simp only [Option.map_some, Option.some.injEq, Prod.mk.injEq] at facts
  obtain ⟨peers, thread⟩ := facts
  obtain ⟨alive, arrived, -⟩ := enqueued_packets_arrive (by decide) run
  have member := List.mem_of_getElem? thread
  exact ⟨_, s, trace_labels reached, alive 0, ((arrived 0 0 _ _ member).2 0 (by rw [peers]; rfl)).1⟩

end WanNet.Network
