import WanNet.EchoServer.Model
import WanNet.Session.Callers

/-!
`EchoServer` keeps to the rules for packets, and gives every one back.
-/

namespace WanNet.Traffic
open Transition Serializer RefPool Session Threads

variable {p : Params} {r : Server.Params} {s s' : State} {m m' : Server.NetServer} {v v' u : Slot} {t t' : Thread} {key i i' j n sessionID : Nat}
  {ans : Answer} {call : Session.Call} {pc' : Pc}

/-! ### Sessions that someone works for -/

theorem session_stays {l : Server.Label} (slots : Server.Slots r m) (h : Server.step r m l = some m') (there : threadAt m key i = some (v, t))
    (acts : 0 < acting t.pc) (there' : threadAt m' key i' = some (v', t')) : v'.accepted = v.accepted ∧ v'.acceptedSocket = v.acceptedSocket := by
  obtain ⟨here, at_i⟩ := threadAt_some there
  obtain ⟨here', -⟩ := threadAt_some there'
  rcases Server.step_slots h with ⟨same, -⟩ | ⟨k, x, w, l', at_k, taken, list, -⟩
  · rw [same] at here'
    obtain rfl := Option.some.inj (here.symm.trans here')
    exact ⟨rfl, rfl⟩
  · rw [list] at here'
    rcases at_set here' with ⟨rfl, rfl⟩ | ⟨-, old⟩
    · obtain rfl := Option.some.inj (here.symm.trans at_k)
      refine Network.step_keeps_socket taken ?_
      rintro count sock address rfl
      obtain ⟨key, -⟩ := Session.step_accept taken
      obtain ⟨_, run⟩ := slots.slots _ v here
      obtain ⟨-, -, idle, -⟩ := (Run.identified run).1.vacant key
      have own := le_weigh (w := acting) (List.mem_of_getElem? at_i)
      omega
    · obtain rfl := Option.some.inj (here.symm.trans old)
      exact ⟨rfl, rfl⟩

/-- A step of a server in which no call comes in, as a step of one of its slots. -/
theorem slot_quiet {l : Server.Label} (h : Server.step r m l = some m') (quiet : ∀ request sessionID, l ≠ .call request sessionID) :
    m'.mSessionList = m.mSessionList ∨ ∃ key v v' l', m.mSessionList[key]? = some v ∧ Session.step (r.config key) v l' = some v' ∧
      m'.mSessionList = m.mSessionList.set key v' ∧ (∀ call sessionID, l' ≠ .call call sessionID) ∧
      ∀ i ans, l' = .thread i ans → l = .at key (.thread i ans) := by
  cases l with
  | accept address =>
    obtain ⟨-, ⟨-, rfl⟩ | ⟨key, rest, v, v', -, here, taken, rfl⟩⟩ := Server.step_accept h
    · exact .inl rfl
    · exact .inr ⟨key, v, v', _, here, taken, rfl, by simp, by simp⟩
  | call request sessionID => exact absurd rfl (quiet request sessionID)
  | «at» key l =>
    have nocall (call : Session.Call) (sessionID : Nat) : l ≠ .call call sessionID := by
      rintro rfl
      cases h
    obtain ⟨v, v', w, here, taken, rfl, ⟨rfl, outside⟩ | ⟨i, ans, t, rfl, at_i, rfl⟩⟩ := Server.step_at h
    · exact .inr ⟨key, v, v', l, here, taken, rfl, nocall, fun i ans is => absurd is (outside i ans)⟩
    · refine .inr ⟨key, v, v', _, here, taken, ?_, by simp, fun i ans is => by rw [is]⟩
      show (Server.effect m v t.pc).mSessionList.set key v' = _
      rw [(Server.effect_same m v t.pc).1]

/-- Where a call was before a step in which none came in. -/
theorem call_was {l : Server.Label} (h : Server.step r m l = some m') (quiet : ∀ request sessionID, l ≠ .call request sessionID)
    (there : threadAt m' key i = some (v', t')) (role : t'.role = .api call sessionID) :
    ∃ v t, threadAt m key i = some (v, t) ∧ t.role = .api call sessionID ∧
      (t = t' ∨ ∃ ans u, l = .at key (.thread i ans) ∧ next (r.config key) v t.role ans t.pc = some (u, t'.pc)) := by
  obtain ⟨at_key, at_i⟩ := threadAt_some there
  rcases slot_quiet h quiet with same | ⟨k, v, w, l', here, taken, list, nocall, back⟩
  · rw [threadAt_same same] at there
    exact ⟨v', t', there, role, .inl rfl⟩
  · rw [list] at at_key
    rcases at_set at_key with ⟨rfl, rfl⟩ | ⟨-, old⟩
    · by_cases threaded : ∃ i ans, l' = .thread i ans
      · obtain ⟨m, ans, rfl⟩ := threaded
        obtain ⟨t, u, pc', at_m, advanced, rfl⟩ := step_thread taken
        rcases at_set at_i with ⟨rfl, rfl⟩ | ⟨-, old⟩
        · exact ⟨v, t, threadAt_eq here at_m, role, .inr ⟨ans, u, back i ans rfl, advanced⟩⟩
        · exact ⟨v, t', threadAt_eq here old, role, .inl rfl⟩
      · have outside (i : Nat) (ans : Answer) : l' ≠ .thread i ans := fun is => threaded ⟨i, ans, is⟩
        rcases step_joins taken outside nocall with still | ⟨new, more, none⟩
        · rw [still] at at_i
          exact ⟨v, t', threadAt_eq here at_i, role, .inl rfl⟩
        · rw [more] at at_i
          rcases at_append_one at_i with old | ⟨-, rfl⟩
          · exact ⟨v, t', threadAt_eq here old, role, .inl rfl⟩
          · exact absurd role (none call sessionID)
    · exact ⟨v', t', threadAt_eq old at_i, role, .inl rfl⟩

theorem next_to_enqueue {cfg : Config} {role : Role} {pc : Pc} (h : next cfg v role ans pc = some (u, .callEnqueue)) : pc = .callAddRef := by
  generalize is : Pc.callEnqueue = pc' at h
  cases next_moves h with
  | callAddRef => rfl
  | decDecrement again | releasePush again => cases again <;> cases is
  | _ => cases is

/-! ### Packets that the application alone has -/

/-- Who may touch a packet whose one reference is the application's. -/
theorem touched_alone {l : Label} (ledger : Ledger s) (slots : Server.Slots p.server s.server)
    (one : references (s.pool.object n) = 1) (has : s.refs n = 1) (touches : touched p (s, l) = some n) :
    l = .free n ∨ (∃ call, l = .use n call) ∨ (∃ key i rand, l = .prepare key i rand ∧ packetAt s key i = some n) ∨
      ∃ key i ans j v t, l = .server (.at key (.thread i ans)) j ∧ threadAt s.server key i = some (v, t) ∧ incremented t = some n := by
  cases l with
  | alloc j => cases touches
  | free packet =>
    obtain rfl := Option.some.inj touches
    exact .inl rfl
  | use packet call =>
    obtain rfl := Option.some.inj touches
    exact .inr (.inl ⟨call, rfl⟩)
  | prepare key i rand => exact .inr (.inr (.inl ⟨key, i, rand, rfl, touches⟩))
  | server l j =>
    rcases Option.or_eq_some_iff.mp touches with incs | ⟨-, decs⟩
    · obtain ⟨key, i, ans, v, t, rfl, there, is⟩ := threadAt_of_increment incs
      exact .inr (.inr (.inr ⟨key, i, ans, j, v, t, rfl, there, is⟩))
    · have kept := slots.retains_of_drop decs
      have counts := ledger.counts n
      have below := slots.early_le_held n
      omega

end WanNet.Traffic

namespace WanNet.EchoServer
open Transition Serializer RefPool Traffic Threads

variable {p : Params} {s s' : Traffic.State} {h : Handler} {v v' : Session.Slot} {t t' : Session.Thread} {key i j n : Nat} {rand : UInt8}
  {ans : Session.Answer} {payload : List UInt8} {st : Stage}

/-! ### A packet on its way back -/

/-- What is in it, before `prepareSend` and from its first step on. -/
def Carries (s : Traffic.State) (packet : Nat) (payload : List UInt8) : Stage → Prop
  | .test | .mark => (s.pool.object packet).mbSendPrepared = false ∧ Represents (s.pool.object packet) ⟨payload, 0⟩
  | .header | .encode | .ready => s.payload packet = payload

structure Own (s : Traffic.State) (packet : Nat) (payload : List UInt8) (stage : Stage) : Prop where
  one : references (s.pool.object packet) = 1
  carries : Carries s packet payload stage

def Doing (s : Traffic.State) (h : Handler) : Prop :=
  match h.pc with
  | .sendPacket => Own s h.packet h.payload .test
  | .sending key i => key = h.key ∧ ∃ v t, threadAt s.server key i = some (v, t) ∧ t.role = .api (.sendPacket h.packet) h.sessionID ∧
      (beforeAddRef t.pc = true → Own s h.packet h.payload (s.stage key i)) ∧ (t.pc = .callEnqueue → s.payload h.packet = h.payload)
  | .free => True

theorem Own.congr (own : Own s n payload st) (object : s'.pool.object n = s.pool.object n) (same : s'.payload n = s.payload n) :
    Own s' n payload st := by
  refine ⟨by rw [object]; exact own.one, ?_⟩
  have carries := own.carries
  unfold Carries at *
  rw [object, same]
  exact carries

theorem contents_unread {q : Packet} (rep : Represents q ⟨payload, 0⟩) : contents q = payload := by
  have whole := read_contents rep
  have bytes : Block.read q.memory (NetworkHeader.size + 0) payload.length = some payload := rep.bytes
  have size : q.mSize.toNat = 0 + payload.length := rep.size
  rw [Nat.add_zero] at bytes
  rw [size, Nat.zero_add] at whole
  exact Option.some.inj (whole.symm.trans bytes)

theorem reach_self (s : Traffic.State) (key i : Nat) (stage : Stage) : (s.reach key i stage).stage key i = stage := if_pos ⟨rfl, rfl⟩

/-- `prepareSend` keeps the payload. -/
theorem Own.prepares (own : Own s n payload (s.stage key i)) (prepares : Prepares s key i n rand s') : Own s' n payload (s'.stage key i) := by
  obtain ⟨one, carries⟩ := own
  cases prepares with
  | tests at_ =>
    rw [at_] at carries
    rw [reach_self, carries.1]
    exact ⟨one, carries⟩
  | marks at_ =>
    rw [at_] at carries
    have header : (({ (s.put n { s.pool.object n with mbSendPrepared := true }).reach key i .header with
        payload := fun m => if m = n then contents (s.pool.object n) else s.payload m } : Traffic.State)).stage key i = .header := reach_self ..
    rw [header]
    refine ⟨?_, ?_⟩
    · show references ((s.pool.set n _).object n) = 1
      rw [set_self]
      exact one
    · show (if n = n then contents (s.pool.object n) else s.payload n) = payload
      rw [if_pos rfl]
      exact contents_unread carries.2
  | writesHeader q at_ set =>
    rw [at_] at carries
    obtain ⟨memory, rfl⟩ := Packet.setHeaderValue_memory set
    rw [reach_self]
    refine ⟨?_, carries⟩
    show references ((s.pool.set n _).object n) = 1
    rw [set_self]
    exact one
  | encodes q at_ encodes =>
    rw [at_] at carries
    obtain ⟨memory, rfl⟩ := Packet.sweep_memory encodes
    rw [reach_self]
    refine ⟨?_, carries⟩
    show references ((s.pool.set n _).object n) = 1
    rw [set_self]
    exact one

/-! ### Steps that are not about it -/

theorem payload_stays {l : Traffic.Label} (h : Traffic.step p s l = some s')
    (apart : ∀ key i rand, l = .prepare key i rand → packetAt s key i ≠ some n) : s'.payload n = s.payload n := by
  cases l with
  | alloc j | free packet =>
    obtain rfl := Option.some.inj h
    rfl
  | use packet call =>
    obtain ⟨_, -, rfl⟩ := Option.map_eq_some_iff.mp h
    rfl
  | prepare key i rand =>
    obtain ⟨⟨v, t⟩, there, h⟩ := Option.bind_eq_some_iff.mp h
    obtain ⟨packet, is, h⟩ := Option.bind_eq_some_iff.mp h
    cases prepare_cases h with
    | tests | writesHeader | encodes => rfl
    | marks at_ =>
      refine if_neg ?_
      rintro rfl
      exact apart key i rand rfl ((packetAt_of there).trans is)
  | server l j =>
    obtain ⟨s₁, acted, h⟩ := Option.bind_eq_some_iff.mp h
    obtain ⟨server, -, rfl⟩ := Option.map_eq_some_iff.mp h
    exact congrFun (act_cases acted).same.2.1 n

theorem stage_stays {l : Traffic.Label} (h : Traffic.step p s l = some s') (apart : ∀ rand, l ≠ .prepare key i rand) :
    s'.stage key i = s.stage key i := by
  cases l with
  | alloc j | free packet =>
    obtain rfl := Option.some.inj h
    rfl
  | use packet call =>
    obtain ⟨_, -, rfl⟩ := Option.map_eq_some_iff.mp h
    rfl
  | prepare k m rand =>
    obtain ⟨_, -, h⟩ := Option.bind_eq_some_iff.mp h
    obtain ⟨_, -, h⟩ := Option.bind_eq_some_iff.mp h
    have other : ¬ (key = k ∧ i = m) := by
      rintro ⟨rfl, rfl⟩
      exact apart rand rfl
    cases prepare_cases h <;> exact if_neg other
  | server l j =>
    obtain ⟨s₁, acted, h⟩ := Option.bind_eq_some_iff.mp h
    obtain ⟨server, -, rfl⟩ := Option.map_eq_some_iff.mp h
    exact congrFun (congrFun (act_cases acted).same.1 key) i

theorem thread_still {l : Traffic.Label} (h : Traffic.step p s l = some s') (apart : ∀ ans j, l ≠ .server (.at key (.thread i ans)) j)
    (there : threadAt s.server key i = some (v, t)) : ∃ v', threadAt s'.server key i = some (v', t) := by
  rcases step_server h with ⟨same, -⟩ | ⟨l', j, rfl, taken⟩
  · exact ⟨v, same ▸ there⟩
  · exact thread_stays taken (fun ans is => apart ans j (by rw [is])) there

/-- Every step leaves the packets of `OnReceive` as they are, or is one of its own `SendPacket`. -/
theorem Doing.step {l : Traffic.Label} (doing : Doing s h) (ledger : Ledger s) (slots : Server.Slots p.server s.server)
    (has : s.refs h.packet = 1) (sole : ∀ key i v t, threadAt s.server key i = some (v, t) → packetOf t = some h.packet →
      beforeAddRef t.pc = true → h.pc = .sending key i)
    (kept : l ≠ .free h.packet ∧ ∀ call, l ≠ .use h.packet call) (taken : Traffic.step p s l = some s') : Doing s' h := by
  have incs {k m : Nat} {w : Session.Slot} {x : Session.Thread} (there : threadAt s.server k m = some (w, x))
      (is : Session.incremented x = some h.packet) : h.pc = .sending k m := by
    obtain ⟨at_, of⟩ := incremented_iff.mp is
    exact sole k m w x there of (by rw [at_]; rfl)
  have prepared {k m : Nat} (is : packetAt s k m = some h.packet) : h.pc = .sending k m := by
    obtain ⟨w, x, there, is⟩ := packetAt_some is
    exact incs there is
  have stays {stage : Stage} (own : Own s h.packet h.payload stage) (unprepared : ∀ key i rand, l = .prepare key i rand → packetAt s key i ≠ some h.packet)
      (uncounted : ∀ k m ans j w x, l = .server (.at k (.thread m ans)) j → threadAt s.server k m = some (w, x) →
        Session.incremented x ≠ some h.packet) : Own s' h.packet h.payload stage := by
    refine own.congr (step_object ledger taken (by rw [own.one]; exact Nat.one_pos) fun touches => ?_) (payload_stays taken unprepared)
    rcases touched_alone ledger slots own.one has touches with is | ⟨call, is⟩ | ⟨k, m, rand, is, same⟩ | ⟨k, m, ans, j, w, x, is, there, same⟩
    · exact kept.1 is
    · exact kept.2 call is
    · exact unprepared k m rand is same
    · exact uncounted k m ans j w x is there same
  unfold Doing at doing ⊢
  cases at_h : h.pc with
  | sendPacket =>
    rw [at_h] at doing
    refine stays doing (fun k m rand _ is => ?_) fun k m ans j w x _ there is => ?_
    · cases at_h.symm.trans (prepared is)
    · cases at_h.symm.trans (incs there is)
  | sending key i =>
    rw [at_h] at doing
    obtain ⟨mine, v, t, there, role, before, enqueues⟩ := doing
    have of : packetOf t = some h.packet := by simp [packetOf, role]
    refine ⟨mine, ?_⟩
    by_cases prepares : ∃ rand, l = .prepare key i rand
    · -- its own `prepareSend`
      obtain ⟨rand, rfl⟩ := prepares
      obtain ⟨v', there'⟩ := thread_still taken (by simp) there
      obtain ⟨⟨w, x⟩, same, taken⟩ := Option.bind_eq_some_iff.mp taken
      obtain ⟨rfl, rfl⟩ := Prod.mk.inj (Option.some.inj (there.symm.trans same))
      obtain ⟨packet, is, taken⟩ := Option.bind_eq_some_iff.mp taken
      obtain ⟨at_, own⟩ := incremented_iff.mp is
      obtain rfl := Option.some.inj (of.symm.trans own)
      refine ⟨v', t, there', role, fun early => (before early).prepares (prepare_cases taken), fun late => ?_⟩
      cases at_.symm.trans late
    · have unprepared (k m : Nat) (rand : UInt8) (is : l = .prepare k m rand) : packetAt s k m ≠ some h.packet := by
        intro has
        cases at_h.symm.trans (prepared has)
        exact prepares ⟨rand, is⟩
      have stage := stage_stays taken fun rand is => prepares ⟨rand, is⟩
      have same := payload_stays taken unprepared
      by_cases steps : ∃ ans j, l = .server (.at key (.thread i ans)) j
      · obtain ⟨ans, j, rfl⟩ := steps
        obtain ⟨s₁, acted, moved⟩ := Option.bind_eq_some_iff.mp taken
        obtain ⟨server, served, rfl⟩ := Option.map_eq_some_iff.mp moved
        obtain ⟨v', u, pc', there', advanced⟩ := thread_steps served there
        refine ⟨v', _, there', role, fun early => ?_, fun late => ?_⟩
        · have own := before (next_beforeAddRef advanced early)
          rw [stage]
          refine stays own unprepared fun k m ans' j' w x is there'' incs' => ?_
          cases is
          obtain ⟨rfl, rfl⟩ := Prod.mk.inj (Option.some.inj (there.symm.trans there''))
          have at_ := (incremented_iff.mp incs').1
          rw [at_] at advanced
          cases early.symm.trans (next_callAddRef advanced)
        · -- the reference is counted when the packet is ready
          have late : pc' = .callEnqueue := late
          rw [late] at advanced
          have at_ := next_to_enqueue advanced
          have own := before (by rw [at_]; rfl)
          have ready := (act_cases acted).ready_at there (incremented_iff.mpr ⟨at_, of⟩)
          rw [ready] at own
          exact same.trans own.carries
      · obtain ⟨v', there'⟩ := thread_still taken (fun ans j is => steps ⟨ans, j, is⟩) there
        refine ⟨v', t, there', role, fun early => ?_, fun late => same.trans (enqueues late)⟩
        rw [stage]
        refine stays (before early) unprepared fun k m ans j w x is there'' incs' => ?_
        cases at_h.symm.trans (incs there'' incs')
        exact steps ⟨ans, j, is⟩
  | free => trivial

/-! ### The network under the server -/

/-- What holds of the network at any time. -/
structure Known (p : Params) (s : Duplex.State) : Prop where
  ledger : Ledger s.net.server
  slots : Server.Slots p.server s.net.server.server
  contents : Contents s.net.server
  received : Received s.net.server
  numbered : Network.Numbered s.net.server.server
  inbox : Duplex.Inbox p s

theorem known_of_run (fits : p.mMaxPayloadLength ≤ defaultSize) {s : Duplex.State} (run : Run (Duplex.duplex p) (Duplex.Proper p) tr s) :
    Known p s := by
  obtain ⟨_, net⟩ := Duplex.run_net run
  obtain ⟨_, traffic⟩ := Network.run_server net
  exact ⟨run_ledger (run_owns traffic), run_slots (run_owns traffic), run_contents fits traffic, run_received fits (run_owns traffic),
    (Network.run_mail fits net).numbered, Duplex.run_inbox fits run⟩

theorem Known.slot {s : Duplex.State} (known : Known p s) (here : s.net.server.server.mSessionList[key]? = some v) :
    Session.Counts (p.server.config key) v ∧ Session.Identified (p.server.config key) v ∧ Session.Opened (p.server.config key) v := by
  obtain ⟨_, run⟩ := known.slots.slots key v here
  obtain ⟨-, _, clear, -⟩ := known.inbox.slots key v here
  obtain ⟨counts, id⟩ := Session.Run.identified run
  exact ⟨counts, id, (Session.Run.opened (clear.mono fun _ _ clear => clear.1)).2⟩

/-- Who works for a session works for the last one accepted. -/
structure Works (cfg : Session.Config) (v : Session.Slot) : Prop where
  id : v.ID = Session.newSessionID cfg v.accepted
  announced : v.accepted ∈ v.issued
  begun : 0 < v.accepted ∧ 0 < v.inits
  settled : Session.weigh Session.initialising v = 0

theorem Known.works {s : Duplex.State} (known : Known p s) (there : threadAt s.net.server.server key i = some (v, t))
    (acts : 0 < Session.acting t.pc) : Works (p.server.config key) v := by
  obtain ⟨here, at_i⟩ := threadAt_some there
  obtain ⟨counts, id, opened⟩ := known.slot here
  have member := List.mem_of_getElem? at_i
  obtain ⟨owes, is⟩ := opened.works counts member (Nat.lt_of_lt_of_le acts (Session.acting_le_settled t.pc))
  have own := Session.le_weigh (w := Session.acting) member
  have apart := id.exclusive.2
  have settled : Session.weigh Session.initialising v = 0 := by omega
  have announced := opened.announced settled (by omega)
  obtain ⟨-, used⟩ := id.past _ announced
  obtain ⟨_, run⟩ := known.slots.slots key v here
  exact ⟨is, announced, ⟨Server.run_begun run (by omega), used⟩, settled⟩

/-- One thread at most receives for a session. -/
theorem Known.one_receiver {s : Duplex.State} (known : Known p s) (there : threadAt s.net.server.server key i = some (v, t))
    (there' : threadAt s.net.server.server key j = some (v', t')) (receives : Session.receiving t.pc = 1)
    (receives' : Session.receiving t'.pc = 1) : j = i := by
  obtain ⟨here, at_i⟩ := threadAt_some there
  obtain ⟨here', at_j⟩ := threadAt_some there'
  obtain rfl := Option.some.inj (here.symm.trans here')
  obtain ⟨-, -, opened⟩ := known.slot here
  by_contra apart
  have two := add_le_total (w := fun t : Session.Thread => Session.receiving t.pc) at_i at_j apart
  have token := opened.token
  unfold Session.weigh at token
  omega

/-! ### The calls of `OnReceive` -/

structure Serves (p : Params) (s : Traffic.State) (h : Handler) : Prop where
  works : ∃ v t, threadAt s.server h.key h.thread = some (v, t) ∧ t.pc = .onReceiveReturn ∧ v.acceptedSocket = h.socket ∧
    h.sessionID = Session.newSessionID (p.server.config h.key) v.accepted
  does : Doing s h

/-- The references of the application are those of the calls of `OnReceive`, one for each session, and every call of
`SendPacket` is one of theirs. -/
structure Serving (p : Params) (s : State) : Prop where
  apart : (s.handlers.map Handler.socket).Nodup
  packets : (s.handlers.map Handler.packet).Nodup
  refs : ∀ n, s.traffic.refs n = (s.handlers.map Handler.packet).count n
  serves : ∀ h ∈ s.handlers, Serves p s.traffic h
  calls : ∀ key i v t call sessionID, threadAt s.server key i = some (v, t) → t.role = .api call sessionID → t.pc ≠ .finished →
    ∃ h ∈ s.handlers, h.pc = .sending key i ∧ call = .sendPacket h.packet

section
variable {s s' : State} {m : Nat}

theorem Serving.has (serving : Serving p s) (member : h ∈ s.handlers) : s.traffic.refs h.packet = 1 :=
  (serving.refs h.packet).trans (List.count_eq_one_of_mem serving.packets (List.mem_map_of_mem member))

theorem packetOf_some (of : packetOf t = some n) : ∃ call sessionID, t.role = .api call sessionID ∧
    (call = .sendPacket n ∨ call = .sendAndDisconnect n) := by
  obtain ⟨role, pc⟩ := t
  cases role with
  | api call sessionID =>
    cases call with
    | sendPacket packet =>
      obtain rfl := Option.some.inj of
      exact ⟨_, _, rfl, .inl rfl⟩
    | sendAndDisconnect packet =>
      obtain rfl := Option.some.inj of
      exact ⟨_, _, rfl, .inr rfl⟩
    | disconnect | getSessionAddress => cases of
  | accept | worker => cases of

/-- Whose call it is. -/
theorem Serving.caller (serving : Serving p s) (there : threadAt s.server key i = some (v, t)) (of : packetOf t = some n)
    (running : t.pc ≠ .finished) : ∃ h ∈ s.handlers, h.pc = .sending key i ∧ h.packet = n := by
  obtain ⟨call, sessionID, role, is⟩ := packetOf_some of
  obtain ⟨h, member, at_, rfl⟩ := serving.calls key i v t call sessionID there role running
  rcases is with is | is
  · cases is
    exact ⟨h, member, at_, rfl⟩
  · cases is

theorem running_of_early (early : beforeAddRef t.pc = true) : t.pc ≠ .finished := by
  intro done
  rw [done] at early
  cases early

theorem Serving.sole (serving : Serving p s) (member : h ∈ s.handlers) (there : threadAt s.server key i = some (v, t))
    (of : packetOf t = some h.packet) (early : beforeAddRef t.pc = true) : h.pc = .sending key i := by
  obtain ⟨h', member', at_, same⟩ := serving.caller there of (running_of_early early)
  obtain rfl := List.inj_on_of_nodup_map serving.packets member' member same
  exact at_

/-- A packet that a call has not counted its reference on yet is with that call alone. -/
theorem Serving.counted_once (serving : Serving p s) (there : threadAt s.server key i = some (v, t)) (of : packetOf t = some n)
    (early : beforeAddRef t.pc = true) : references (s.traffic.pool.object n) = 1 := by
  obtain ⟨h, member, at_, rfl⟩ := serving.caller there of (running_of_early early)
  have doing := (serving.serves h member).does
  unfold Doing at doing
  rw [at_] at doing
  obtain ⟨-, v', t', there', -, before, -⟩ := doing
  obtain ⟨rfl, rfl⟩ := Prod.mk.inj (Option.some.inj (there.symm.trans there'))
  exact (before early).one

/-! ### The rules -/

/-- Nobody else prepares the packet of a call. -/
theorem Serving.unshared (serving : Serving p s) (key i : Nat) (rand : UInt8) : Unshared s.traffic (.prepare key i rand) := by
  intro test packet has key' _ v here i' _ preparing
  obtain ⟨w, t, there, is⟩ := packetAt_some has
  obtain ⟨w', t', there', is'⟩ := packetAt_some preparing.has
  obtain ⟨at_, of⟩ := incremented_iff.mp is
  obtain ⟨at_', of'⟩ := incremented_iff.mp is'
  have early : beforeAddRef t.pc = true := by rw [at_]; rfl
  have early' : beforeAddRef t'.pc = true := by rw [at_']; rfl
  obtain ⟨h, member, sends, rfl⟩ := serving.caller there of (running_of_early early)
  have mine := serving.sole member there' of' early'
  cases sends.symm.trans mine
  have busy := preparing.busy
  rw [test] at busy
  cases busy

theorem Serving.proper (serving : Serving p s) (known : Known p s.net) {l : Duplex.Label} (quiet : applies l = false)
    (fair : Fair p s.net l) : Duplex.Proper p s.net l := by
  cases l with
  | net l =>
    cases l with
    | client k l => exact ⟨fair, by simp [Duplex.Spacious, Duplex.slotOf]⟩
    | server l peer =>
      cases l with
      | alloc j | free packet | use packet call => cases quiet
      | prepare key i rand => exact ⟨⟨trivial, serving.unshared key i rand⟩, by simp [Duplex.Spacious, Duplex.slotOf]⟩
      | server l j =>
        obtain ⟨few, spacious⟩ := fair
        refine ⟨⟨⟨⟨few, ?_⟩, ?_, ?_⟩, trivial⟩, spacious⟩
        · cases l with
          | accept address =>
            have opening : s.net.net.server.server.mSessionAcceptedCount + 1 < 2 ^ 32 := spacious.2
            refine ⟨by omega, fun key _ v here t member sessionID caller => ?_⟩
            obtain ⟨-, id, -⟩ := known.slot here
            obtain ⟨n, issued, is, -⟩ := id.callers t member sessionID caller
            exact ⟨n, issued, is, by omega⟩
          | call request sessionID => cases quiet
          | «at» key l => trivial
        · cases l with
          | call request sessionID => cases quiet
          | _ =>
            intro packet none
            cases none
        · intro packet incs
          obtain ⟨key, i, ans, v, t, -, there, is⟩ := threadAt_of_increment incs
          obtain ⟨at_, of⟩ := incremented_iff.mp is
          have one := serving.counted_once there of (by rw [at_]; rfl)
          have one : references (s.net.net.server.pool.object packet) = 1 := one
          omega
  | sendPacket k packet => exact fair
  | sender k i rand ok => trivial

/-- `SendPacket` in `OnReceive`. -/
theorem Serving.proper_send (serving : Serving p s) (known : Known p s.net) (member : h ∈ s.handlers)
    (few : Server.FewEach p.server s.server (.call (.sendPacket (some h.packet)) h.sessionID)) : Duplex.Proper p s.net (.net h.send) := by
  obtain ⟨v, t, there, at_, -, is⟩ := (serving.serves h member).works
  have works := known.works there (by rw [at_]; exact Nat.one_pos)
  have here : s.net.net.server.server.mSessionList[h.key]? = some v := (threadAt_some there).1
  have lt := (List.getElem?_eq_some_iff.mp here).1
  refine ⟨⟨⟨⟨few, h.key, List.mem_range.mpr lt, v, here, v.accepted, works.announced, is, by omega⟩, ?_, ?_⟩, trivial⟩, ?_, ?_⟩
  · intro packet passes
    obtain rfl := Option.some.inj passes
    have one : s.net.net.server.refs h.packet = 1 := serving.has member
    omega
  · intro packet incs
    cases incs
  · intro x none
    cases none
  · intro key found w here'
    rw [is, Server.findSessionOrNull_of_issued here known.slots.range] at found
    obtain rfl := Option.some.inj found
    obtain rfl := Option.some.inj (here.symm.trans here')
    exact works.begun.2

/-- `Free` in `OnReceive`. -/
theorem Serving.proper_free (serving : Serving p s) (member : h ∈ s.handlers) (at_ : h.pc = .free) : Duplex.Proper p s.net (.net h.release) := by
  have one : s.net.net.server.refs h.packet = 1 := serving.has member
  refine ⟨⟨⟨by omega, fun _ => ?_⟩, trivial⟩, by simp [Duplex.Spacious, Duplex.slotOf, Handler.release]⟩
  rintro ⟨v, inside, t, running, borrow⟩
  obtain ⟨of, early⟩ : packetOf t = some h.packet ∧ beforeAddRef t.pc = true := by simpa [borrows] using borrow
  obtain ⟨key, here⟩ := List.mem_iff_getElem?.mp inside
  obtain ⟨i, at_i⟩ := List.mem_iff_getElem?.mp running
  cases at_.symm.trans (serving.sole member (threadAt_eq here at_i) of early)

/-! ### Steps -/

/-- A step that keeps the packets of a call keeps the call. -/
theorem Serving.kept {l : Traffic.Label} {after : Traffic.State} (serving : Serving p s) (known : Known p s.net) (member : h ∈ s.handlers)
    (taken : Traffic.step p s.traffic l = some after) (apart : ∀ ans j, l ≠ .server (.at h.key (.thread h.thread ans)) j)
    (kept : l ≠ .free h.packet ∧ ∀ call, l ≠ .use h.packet call) : Serves p after h := by
  obtain ⟨⟨v, t, there, at_, sock, is⟩, does⟩ := serving.serves h member
  refine ⟨?_, does.step known.ledger known.slots (serving.has member) (fun key i v t => serving.sole member) kept taken⟩
  rcases step_server taken with ⟨same, -⟩ | ⟨l', j, rfl, served⟩
  · exact ⟨v, t, same ▸ there, at_, sock, is⟩
  · obtain ⟨v', there'⟩ := thread_stays served (fun ans is => apart ans j (by rw [is])) there
    obtain ⟨accepted, sock'⟩ := session_stays known.slots served there (by rw [at_]; exact Nat.one_pos) there'
    exact ⟨v', t, there', at_, sock'.trans sock, by rw [accepted]; exact is⟩

theorem Serving.kept_calls {l : Traffic.Label} {after : Traffic.State} (serving : Serving p s) (taken : Traffic.step p s.traffic l = some after)
    (quiet : ∀ request sessionID j, l ≠ .server (.call request sessionID) j) {call : Session.Call} {sessionID : Nat}
    (there : threadAt after.server key i = some (v, t)) (role : t.role = .api call sessionID) (running : t.pc ≠ .finished) :
    ∃ h ∈ s.handlers, h.pc = .sending key i ∧ call = .sendPacket h.packet := by
  rcases step_server taken with ⟨same, -⟩ | ⟨l', j, rfl, served⟩
  · rw [same] at there
    exact serving.calls key i v t call sessionID there role running
  · obtain ⟨v', t', was, role', how⟩ := call_was served (fun request sessionID is => quiet request sessionID j (by rw [is])) there role
    refine serving.calls key i v' t' call sessionID was role' fun done => ?_
    rcases how with rfl | ⟨ans, u, -, advanced⟩
    · exact running done
    · rw [done] at advanced
      cases advanced

theorem refs_stay {l : Traffic.Label} {s s' : Traffic.State} (taken : Traffic.step p s l = some s') (noalloc : ∀ j, l ≠ .alloc j) (nofree : ∀ n, l ≠ .free n)
    (ahead : ∀ key i ans j v t frame, l = .server (.at key (.thread i ans)) j → threadAt s.server key i = some (v, t) → t.pc ≠ .onReceive frame) :
    s'.refs = s.refs := by
  cases l with
  | alloc j => exact absurd rfl (noalloc j)
  | free packet => exact absurd rfl (nofree packet)
  | use packet call =>
    obtain ⟨_, -, rfl⟩ := Option.map_eq_some_iff.mp taken
    rfl
  | prepare key i rand =>
    obtain ⟨_, -, taken⟩ := Option.bind_eq_some_iff.mp taken
    obtain ⟨_, -, taken⟩ := Option.bind_eq_some_iff.mp taken
    cases prepare_cases taken <;> rfl
  | server l j =>
    obtain ⟨s₁, acted, taken⟩ := Option.bind_eq_some_iff.mp taken
    obtain ⟨server, -, rfl⟩ := Option.map_eq_some_iff.mp taken
    cases act_cases acted with
    | retains | releases | aside => rfl
    | copies key i ans v t is here at_ _ copied =>
      obtain rfl | ⟨packet, pool, frame, rest, q, ok, -, -, -, ⟨-, rfl⟩ | ⟨-, rfl⟩⟩ := copyFrame_cases copied <;> rfl
    | handsOver key i ans v t frame is here at_ => exact absurd at_ (ahead key i ans j v t frame (by rw [is]) here)

structure Delivers (s : State) (l : Duplex.Label) (h : Handler) (v : Session.Slot) (t : Session.Thread) (frame : List Session.RecvByte) : Prop where
  step : ∃ ans j peer, l = .net (.server (.server (.at h.key (.thread h.thread ans)) j) peer)
  there : threadAt s.server h.key h.thread = some (v, t)
  at_ : t.pc = .onReceive frame
  decoded : decode (frame.map Session.RecvByte.byte) = some h.payload
  own : Own s.traffic h.packet h.payload .test
  unused : s.traffic.refs h.packet = 0
  given : ∃ copied, handOver s.traffic h.key h.thread = { s.traffic with copied := copied }.grant h.packet
  session : h.sessionID = v.ID ∧ h.socket = v.acceptedSocket
  fresh : h.pc = .sendPacket

theorem called_cases (known : Known p s.net) (l : Duplex.Label) :
    (called s l = none ∧ ∀ key i ans j peer v t frame, l = .net (.server (.server (.at key (.thread i ans)) j) peer) →
      threadAt s.server key i = some (v, t) → t.pc ≠ .onReceive frame) ∨
      ∃ h v t frame, Delivers s l h v t frame ∧ called s l = some h := by
  by_cases threaded : ∃ key i ans j peer, l = .net (.server (.server (.at key (.thread i ans)) j) peer)
  · obtain ⟨key, i, ans, j, peer, rfl⟩ := threaded
    cases there : threadAt s.server key i with
    | none =>
      refine .inl ⟨by simp [called, mover, there], fun key' i' ans' j' peer' v t frame is there' => ?_⟩
      cases is
      cases there.symm.trans there'
    | some x =>
      obtain ⟨v, t⟩ := x
      by_cases here : ∃ frame, t.pc = .onReceive frame
      · obtain ⟨frame, at_⟩ := here
        have received := known.received
        obtain ⟨c, member, of, by_, filled, given⟩ := received.gives there at_
        obtain ⟨payload, decoded, rep⟩ := filled.payload
        have sole := received.alone member
        have found : s.traffic.copied.find? (fun c => c.key = key ∧ c.thread = i) = some c := by
          cases found : s.traffic.copied.find? (fun c => c.key = key ∧ c.thread = i) with
          | some c' =>
            have is := List.find?_some found
            simp only [decide_eq_true_eq] at is
            rw [received.unique member (List.mem_of_find?_eq_some found) ⟨is.1.trans of.symm, is.2.trans by_.symm⟩]
          | none =>
            have other := List.find?_eq_none.mp found c member
            simp [of, by_] at other
        refine .inr ⟨⟨key, i, v.ID, c.packet, .sendPacket, payload, v.acceptedSocket⟩, v, t, frame, ?_, ?_⟩
        · exact ⟨⟨ans, j, peer, rfl⟩, there, at_, decoded, ⟨filled.one, filled.flag, rep⟩, (sole.unused known.ledger known.slots).1,
            ⟨_, given⟩, ⟨rfl, rfl⟩, rfl⟩
        · simp only [called, mover, there, Option.map_some, Option.bind_some, at_, found, decoded, Option.getD_some]
      · refine .inl ⟨?_, fun key' i' ans' j' peer' v' t' frame is there' at_ => ?_⟩
        · have none : ∀ m ∈ mover s (.net (.server (.server (.at key (.thread i ans)) j) peer)), ∀ frame, m.t.pc ≠ .onReceive frame := by
            intro m is frame at_
            rw [mover, there] at is
            obtain rfl := Option.some.inj is
            exact here ⟨frame, at_⟩
          unfold called
          cases is : mover s (.net (.server (.server (.at key (.thread i ans)) j) peer)) with
          | none => rfl
          | some m =>
            have none := none m is
            simp only [Option.bind_some]
        · cases is
          obtain ⟨rfl, rfl⟩ := Prod.mk.inj (Option.some.inj (there.symm.trans there'))
          exact here ⟨frame, at_⟩
  · refine .inl ⟨?_, fun key i ans j peer v t frame is => absurd ⟨key, i, ans, j, peer, is⟩ threaded⟩
    have none : mover s l = none := by
      unfold mover
      split
      next => exact absurd ⟨_, _, _, _, _, rfl⟩ threaded
      · rfl
    rw [called, none]
    rfl

/-- A step is one of the server's, or leaves it as it is. -/
theorem traffic_step {l : Duplex.Label} {net : Duplex.State} (h : Duplex.step p s.net l = some net) :
    (net.net.server = s.traffic ∧ ∀ tl peer, l ≠ .net (.server tl peer)) ∨
      ∃ tl peer, l = .net (.server tl peer) ∧ Traffic.step p s.traffic tl = some net.net.server := by
  cases l with
  | net l =>
    obtain ⟨-, after, taken, rfl⟩ := Duplex.step_net h
    cases l with
    | server tl peer =>
      obtain ⟨-, server, served, rfl⟩ := Network.step_server taken
      exact .inr ⟨tl, peer, rfl, served⟩
    | client k l =>
      obtain ⟨-, c, -, rfl⟩ := Network.step_client taken
      exact .inl ⟨rfl, by simp⟩
  | sendPacket k packet =>
    obtain rfl | ⟨q, -, rfl⟩ := Duplex.step_sendPacket h
    · exact .inl ⟨rfl, by simp⟩
    · exact .inl ⟨rfl, by simp⟩
  | sender k i rand ok =>
    obtain ⟨x, packet, pc, -, -, rfl⟩ := Duplex.step_sender h
    exact .inl ⟨rfl, by simp⟩

theorem Serving.init (started : Started p s) : Serving p s := by
  have none := started.unused
  constructor
  case apart =>
    rw [none]
    exact List.nodup_nil
  case packets =>
    rw [none]
    exact List.nodup_nil
  case refs =>
    intro n
    rw [none]
    exact started.net.net.server.unused.1 n
  case serves =>
    intro h member
    rw [none] at member
    cases member
  case calls =>
    intro key i v t call sessionID there
    obtain ⟨here, at_i⟩ := threadAt_some there
    rw [(started.net.net.server.server.1.slots v (List.mem_of_getElem? here)).1.idle.1] at at_i
    cases at_i

theorem Serving.same {net : Duplex.State} (serving : Serving p s) (same : net.net.server = s.traffic) :
    Serving p ⟨net, s.handlers⟩ := by
  obtain ⟨apart, packets, refs, serves, calls⟩ := serving
  constructor
  case apart => exact apart
  case packets => exact packets
  case refs =>
    intro n
    show net.net.server.refs n = _
    rw [same]
    exact refs n
  case serves =>
    intro h member
    show Serves p net.net.server h
    rw [same]
    exact serves h member
  case calls =>
    intro key i v t call sessionID there
    have there : threadAt net.net.server.server key i = some (v, t) := there
    rw [same] at there
    exact calls key i v t call sessionID there

/-- A worker that calls `OnReceive` gives it a packet of its own, for a session that no other call is about. -/
theorem Serving.delivers {ans : Session.Answer} {frame : List Session.RecvByte} {after : Traffic.State} (serving : Serving p s) (known : Known p s.net)
    {l : Duplex.Label} (delivers : Delivers s l h v t frame) (old : ∀ h ∈ s.handlers, Serves p after h)
    (taken : Traffic.step p s.traffic (.server (.at h.key (.thread h.thread ans)) j) = some after)
    (calls : ∀ key i v t call sessionID, threadAt after.server key i = some (v, t) → t.role = .api call sessionID → t.pc ≠ .finished →
      ∃ h ∈ s.handlers, h.pc = .sending key i ∧ call = .sendPacket h.packet) {net : Duplex.State} (is : net.net.server = after) :
    Serving p ⟨net, s.handlers ++ [h]⟩ := by
  subst is
  obtain ⟨-, there, at_, decoded, own, unused, ⟨copied, given⟩, ⟨sessionID, sock⟩, fresh⟩ := delivers
  have works := known.works there (by rw [at_]; exact Nat.one_pos)
  obtain ⟨s₁, acted, taken⟩ := Option.bind_eq_some_iff.mp taken
  obtain ⟨server, served, moved⟩ := Option.map_eq_some_iff.mp taken
  rw [act_effect there] at acted
  unfold effect at acted
  rw [at_] at acted
  obtain rfl := Option.some.inj acted
  rw [given] at moved
  have server_is : net.net.server.server = server := by rw [← moved]
  have object (n : Nat) : net.net.server.pool.object n = s.traffic.pool.object n := by rw [← moved]; rfl
  have payload (n : Nat) : net.net.server.payload n = s.traffic.payload n := by rw [← moved]; rfl
  have refs (n : Nat) : net.net.server.refs n = if n = h.packet then s.traffic.refs n + 1 else s.traffic.refs n := by rw [← moved]; rfl
  constructor
  case apart =>
    rw [List.map_append, List.nodup_append]
    refine ⟨serving.apart, List.nodup_singleton _, ?_⟩
    rintro a inside b new rfl
    obtain rfl := List.mem_singleton.mp new
    obtain ⟨x, member, same⟩ := List.mem_map.mp inside
    obtain ⟨⟨v', t', there', at', sock', -⟩, -⟩ := serving.serves x member
    have works' := known.works there' (by rw [at']; exact Nat.one_pos)
    have key := known.numbered.apart x.key h.key v' v (threadAt_some there').1 (threadAt_some there).1 works'.begun.1 works.begun.1
      (by rw [sock', same, sock])
    rw [key] at there'
    have thread := known.one_receiver there there' (by rw [at_]; rfl) (by rw [at']; rfl)
    rw [thread] at there'
    obtain ⟨rfl, rfl⟩ := Prod.mk.inj (Option.some.inj (there.symm.trans there'))
    cases at_.symm.trans at'
  case packets =>
    rw [List.map_append, List.nodup_append]
    refine ⟨serving.packets, List.nodup_singleton _, ?_⟩
    rintro a inside b new rfl
    obtain rfl := List.mem_singleton.mp new
    have count := List.count_pos_iff.mpr inside
    rw [← serving.refs, unused] at count
    exact Nat.lt_irrefl 0 count
  case refs =>
    intro n
    show net.net.server.refs n = _
    rw [refs, List.map_append, List.count_append, serving.refs n]
    show _ = _ + [h.packet].count n
    rw [List.count_singleton]
    by_cases is : n = h.packet
    · rw [if_pos is, if_pos (by simp [is])]
    · rw [if_neg is, if_neg (by simpa using fun same => is same.symm), Nat.add_zero]
  case serves =>
    intro x member
    rcases List.mem_append.mp member with inside | new
    · exact old x inside
    · obtain rfl := List.mem_singleton.mp new
      obtain ⟨v', u, pc', there', advanced⟩ := thread_steps served there
      rw [at_] at advanced
      obtain rfl : pc' = .onReceiveReturn := by
        cases Session.next_moves advanced
        rfl
      obtain ⟨accepted, sock'⟩ := session_stays known.slots served there (by rw [at_]; exact Nat.one_pos) there'
      rw [← server_is] at there'
      refine ⟨⟨v', _, there', rfl, sock'.trans sock.symm, ?_⟩, ?_⟩
      · rw [accepted, sessionID]
        exact works.id
      · unfold Doing
        rw [fresh]
        exact own.congr (object x.packet) (payload x.packet)
  case calls =>
    intro key i v t call sessionID there role running
    obtain ⟨x, inside, is⟩ := calls key i v t call sessionID there role running
    exact ⟨x, List.mem_append_left _ inside, is⟩

/-- Anything that happens but for what `OnReceive` does. -/
theorem Serving.net {l : Duplex.Label} {net : Duplex.State} (serving : Serving p s) (known : Known p s.net) (quiet : applies l = false)
    (returned : Returned s l) (h : Duplex.step p s.net l = some net) : Serving p ⟨net, s.handlers ++ (called s l).toList⟩ := by
  rcases called_cases known l with ⟨none, ahead⟩ | ⟨x, v, t, frame, delivers, is⟩
  · rw [none, Option.toList_none, List.append_nil]
    rcases traffic_step h with ⟨same, -⟩ | ⟨tl, peer, rfl, taken⟩
    · exact serving.same same
    · have refs := refs_stay taken (fun j is => by simp [applies, is] at quiet) (fun n is => by simp [applies, is] at quiet)
        fun key i ans j v t frame is there => ahead key i ans j peer v t frame (by rw [is]) there
      constructor
      case apart => exact serving.apart
      case packets => exact serving.packets
      case refs =>
        intro n
        show net.net.server.refs n = _
        rw [refs]
        exact serving.refs n
      case serves =>
        intro h member
        exact serving.kept known member taken (fun ans j is => by
          obtain ⟨v, t, there, at_, -⟩ := (serving.serves h member).works
          have there : threadAt s.server h.key h.thread = some (v, t) := there
          refine returned ⟨h.key, h.thread, v, t⟩ ?_ at_ h member ⟨rfl, rfl⟩
          rw [is, mover, there]
          rfl) ⟨fun is => by simp [applies, is] at quiet, fun call is => by simp [applies, is] at quiet⟩
      case calls =>
        intro key i v t call sessionID there role running
        exact serving.kept_calls taken (fun request sessionID j is => by simp [applies, is] at quiet) there role running
  · obtain ⟨ans, j, peer, rfl⟩ := delivers.step
    rcases traffic_step h with ⟨-, none⟩ | ⟨tl, peer', same, taken⟩
    · exact absurd rfl (none _ peer)
    · cases same
      rw [is]
      refine serving.delivers known delivers (fun h member => ?_) taken (fun key i v t call sessionID there role running => ?_) rfl
      · refine serving.kept known member taken (fun ans j is => ?_) ⟨by simp, by simp⟩
        obtain ⟨v', t', there', at', -⟩ := (serving.serves h member).works
        simp only [Traffic.Label.server.injEq, Server.Label.at.injEq, Session.Label.thread.injEq] at is
        rw [← is.1.1, ← is.1.2.1] at there'
        obtain ⟨rfl, rfl⟩ := Prod.mk.inj (Option.some.inj (there'.symm.trans delivers.there))
        cases delivers.at_.symm.trans at'
      · exact serving.kept_calls taken (by simp) there role running

/-! What `OnReceive` does itself. -/

/-- A step of one call that leaves the references and the other calls as they are. -/
theorem Serving.advances {net : Duplex.State} {pc : OnReceive} (serving : Serving p s) (at_n : s.handlers[n]? = some h)
    (refs : net.net.server.refs = s.traffic.refs) (kept : ∀ x ∈ s.handlers, Serves p net.net.server x)
    (does : Doing net.net.server { h with pc := pc })
    (calls : ∀ key i v t call sessionID, threadAt net.net.server.server key i = some (v, t) → t.role = .api call sessionID → t.pc ≠ .finished →
      (∃ x ∈ s.handlers, x ≠ h ∧ x.pc = .sending key i ∧ call = .sendPacket x.packet) ∨ pc = .sending key i ∧ call = .sendPacket h.packet) :
    Serving p ⟨net, s.handlers.set n { h with pc := pc }⟩ := by
  have sockets : (s.handlers.set n { h with pc := pc }).map Handler.socket = s.handlers.map Handler.socket := map_set_same at_n rfl
  have packets : (s.handlers.set n { h with pc := pc }).map Handler.packet = s.handlers.map Handler.packet := map_set_same at_n rfl
  constructor
  case apart =>
    rw [sockets]
    exact serving.apart
  case packets =>
    rw [packets]
    exact serving.packets
  case refs =>
    intro m
    rw [packets]
    exact (congrFun refs m).trans (serving.refs m)
  case serves =>
    intro x inside
    rcases List.mem_or_eq_of_mem_set inside with old | rfl
    · exact kept x old
    · exact ⟨(kept h (List.mem_of_getElem? at_n)).works, does⟩
  case calls =>
    intro key i v t call sessionID there role running
    rcases calls key i v t call sessionID there role running with ⟨x, old, apart, sends, is⟩ | ⟨sends, is⟩
    · exact ⟨x, mem_set_of_ne at_n old apart, sends, is⟩
    · exact ⟨_, List.mem_set (List.getElem?_eq_some_iff.mp at_n).1 _, sends, is⟩

/-- The thread that `SendPacket` becomes. -/
theorem Serving.joins {net : Duplex.State} (serving : Serving p s) (known : Known p s.net) (member : h ∈ s.handlers)
    (taken : Duplex.step p s.net (.net h.send) = some net) : ∃ v, s.server.mSessionList[h.key]? = some v ∧
      sendingAt s.server h.sessionID = .sending h.key v.threads.length ∧ net.net.server = { s.traffic with
        server := s.server.put h.key (v.spawn (.api (.sendPacket h.packet) h.sessionID) .callIncrement) } := by
  obtain ⟨v, t, there, -, -, is⟩ := (serving.serves h member).works
  obtain ⟨here, -⟩ := threadAt_some there
  have here : s.server.mSessionList[h.key]? = some v := here
  have found : Server.findSessionOrNull s.server h.sessionID = some h.key := by
    rw [is]
    exact Server.findSessionOrNull_of_issued here known.slots.range v.accepted
  refine ⟨v, here, by simp only [sendingAt, found, here, Option.elim_some], ?_⟩
  obtain ⟨-, none⟩ | ⟨tl, peer, same, moved⟩ := traffic_step taken
  · exact absurd rfl (none _ ⟨0, 0⟩)
  cases same
  have moved : (Server.step p.server s.server (.call (.sendPacket (some h.packet)) h.sessionID)).map
      (fun server => { s.traffic with server := server }) = some net.net.server := moved
  obtain ⟨server, served, after⟩ := Option.map_eq_some_iff.mp moved
  rw [← after]
  obtain ⟨-, never⟩ | ⟨call, key, v', w, is_call, found', here', joined, rfl⟩ := Server.step_call served
  · rcases never with never | never
    · cases never
    · cases found.symm.trans never
  cases found.symm.trans found'
  cases here.symm.trans here'
  cases is_call
  obtain rfl := Option.some.inj joined
  rfl

theorem Serving.sends {net : Duplex.State} (serving : Serving p s) (known : Known p s.net) (at_n : s.handlers[n]? = some h)
    (at_ : h.pc = .sendPacket) (taken : Duplex.step p s.net (.net h.send) = some net) :
    Serving p ⟨net, s.handlers.set n { h with pc := sendingAt s.server h.sessionID }⟩ := by
  have member := List.mem_of_getElem? at_n
  have doing := (serving.serves h member).does
  unfold Doing at doing
  rw [at_] at doing
  obtain ⟨v, here, sending, after⟩ := serving.joins known member taken
  rw [sending]
  obtain ⟨-, none⟩ | ⟨tl, peer, same, taken⟩ := traffic_step taken
  · exact absurd rfl (none _ ⟨0, 0⟩)
  cases same
  have kept (x : Handler) (inside : x ∈ s.handlers) : Serves p net.net.server x := serving.kept known inside taken (by simp) (by simp)
  have refs := refs_stay taken (by simp) (by simp) (by simp)
  have server : net.net.server.server = s.server.put h.key (v.spawn (.api (.sendPacket h.packet) h.sessionID) .callIncrement) := by rw [after]
  have stage : net.net.server.stage h.key v.threads.length = .test := by
    rw [after]
    by_contra late
    obtain ⟨w, x, there, -⟩ := known.contents.untested h.key v.threads.length late
    obtain ⟨here', at_i⟩ := threadAt_some there
    obtain rfl := Option.some.inj (here.symm.trans here')
    exact Nat.lt_irrefl _ (List.getElem?_eq_some_iff.mp at_i).1
  refine serving.advances at_n refs kept ?_ ?_
  · have there : threadAt net.net.server.server h.key v.threads.length =
        some (v.spawn (.api (.sendPacket h.packet) h.sessionID) .callIncrement, ⟨.api (.sendPacket h.packet) h.sessionID, .callIncrement⟩) := by
      rw [server]
      exact threadAt_eq (List.getElem?_set_self (List.getElem?_eq_some_iff.mp here).1) List.getElem?_concat_length
    refine ⟨rfl, _, _, there, rfl, fun _ => ?_, fun late => by cases late⟩
    have own : Own net.net.server h.packet h.payload .test := doing.congr (by rw [after]) (by rw [after])
    rw [← stage] at own
    exact own
  · intro key i w x call sessionID there role running
    have passes {key i : Nat} {w : Session.Slot} (there : threadAt s.server key i = some (w, x)) :
        ∃ y ∈ s.handlers, y ≠ h ∧ y.pc = .sending key i ∧ call = .sendPacket y.packet := by
      obtain ⟨y, inside, sends, is⟩ := serving.calls key i w x call sessionID there role running
      refine ⟨y, inside, ?_, sends, is⟩
      rintro rfl
      cases at_.symm.trans sends
    rw [server] at there
    obtain ⟨at_key, at_i⟩ := threadAt_some there
    rcases at_set at_key with ⟨rfl, rfl⟩ | ⟨-, old⟩
    · rcases at_append_one at_i with old | ⟨rfl, rfl⟩
      · exact .inl (passes (threadAt_eq here old))
      · cases role
        exact .inr ⟨rfl, rfl⟩
    · exact .inl (passes (threadAt_eq old at_i))

theorem Serving.returns (serving : Serving p s) (at_n : s.handlers[n]? = some h) (at_ : h.pc = .sending key i)
    (there : threadAt s.server key i = some (v, t)) (done : t.pc = .finished) : Serving p { s with handlers := s.handlers.set n { h with pc := .free } } := by
  refine serving.advances at_n rfl serving.serves trivial ?_
  intro key' i' w x call sessionID there' role running
  obtain ⟨y, inside, sends, is⟩ := serving.calls key' i' w x call sessionID there' role running
  refine .inl ⟨y, inside, ?_, sends, is⟩
  rintro rfl
  cases at_.symm.trans sends
  obtain ⟨rfl, rfl⟩ := Prod.mk.inj (Option.some.inj (there.symm.trans there'))
  exact running done

theorem Serving.frees {net : Duplex.State} (serving : Serving p s) (known : Known p s.net) (at_n : s.handlers[n]? = some h)
    (at_ : h.pc = .free) (taken : Duplex.step p s.net (.net h.release) = some net) : Serving p ⟨net, s.handlers.eraseIdx n⟩ := by
  have member := List.mem_of_getElem? at_n
  obtain ⟨lt, is⟩ := List.getElem?_eq_some_iff.mp at_n
  have perm : (h :: s.handlers.eraseIdx n).Perm s.handlers := is ▸ List.getElem_cons_eraseIdx_perm lt
  have packets : (h.packet :: (s.handlers.eraseIdx n).map Handler.packet).Nodup := (perm.map Handler.packet).nodup_iff.mpr serving.packets
  obtain ⟨-, none⟩ | ⟨tl, peer, same, taken⟩ := traffic_step taken
  · exact absurd rfl (none _ ⟨0, 0⟩)
  cases same
  have left {x : Handler} (inside : x ∈ s.handlers.eraseIdx n) : x ∈ s.handlers ∧ x.packet ≠ h.packet := by
    refine ⟨List.mem_of_mem_eraseIdx inside, fun same => (List.nodup_cons.mp packets).1 ?_⟩
    rw [← same]
    exact List.mem_map_of_mem inside
  constructor
  case apart =>
    exact serving.apart.sublist ((List.eraseIdx_sublist _ _).map _)
  case packets => exact (List.nodup_cons.mp packets).2
  case refs =>
    intro m
    have counts := serving.refs m
    rw [← (perm.map Handler.packet).count_eq, List.map_cons, List.count_cons] at counts
    have refs : net.net.server.refs m = if m = h.packet then s.traffic.refs m - 1 else s.traffic.refs m := by
      have taken : some ((s.traffic.yields h.packet).release h.packet) = some net.net.server := taken
      rw [← Option.some.inj taken]
      rfl
    show net.net.server.refs m = _
    rw [refs, counts]
    by_cases is : m = h.packet
    · rw [if_pos is, if_pos (by simp [is]), Nat.add_sub_cancel]
    · rw [if_neg is, if_neg (by simpa using fun same => is same.symm), Nat.add_zero]
  case serves =>
    intro x inside
    obtain ⟨old, apart⟩ := left inside
    refine serving.kept known old taken (by simp) ⟨fun same => apart ?_, by simp⟩
    exact (Traffic.Label.free.inj same).symm
  case calls =>
    intro key' i' w x call sessionID there' role running
    obtain ⟨y, inside, sends, is⟩ := serving.kept_calls taken (by simp) there' role running
    rcases List.mem_cons.mp (perm.mem_iff.mpr inside) with rfl | old
    · cases at_.symm.trans sends
    · exact ⟨y, old, sends, is⟩

theorem Serving.step {l : Label} (serving : Serving p s) (known : Known p s.net) (h : step p s l = some s') : Serving p s' := by
  cases l with
  | net l =>
    obtain ⟨quiet, returned, net, taken, rfl⟩ := step_net h
    exact serving.net known quiet returned taken
  | onReceive n =>
    obtain ⟨x, at_n, handles⟩ := step_onReceive h
    cases handles with
    | sends at_ net taken => exact serving.sends known at_n at_ taken
    | returns key i at_ v t there done => exact serving.returns at_n at_ there done
    | frees at_ net taken => exact serving.frees known at_n at_ taken

end

/-! ### Runs -/

/-- The network under the server goes through a run in which all rules are kept. -/
theorem run_serving (fits : p.mMaxPayloadLength ≤ defaultSize) {s : State} (run : Run (echoServer p) (Proper p) tr s) :
    (∃ tr', Run (Duplex.duplex p) (Duplex.Proper p) tr' s.net) ∧ Serving p s := by
  refine run.invariant (I := fun _ s => (∃ tr', Run (Duplex.duplex p) (Duplex.Proper p) tr' s.net) ∧ Serving p s)
    (fun s started => ?_) fun tr s l s' _ served proper h => ?_
  · have started : Started p s := started
    have net : (Duplex.duplex p).init s.net := started.net
    exact ⟨⟨[], .init net⟩, .init started⟩
  obtain ⟨⟨_, under⟩, serving⟩ := served
  have known := known_of_run fits under
  have h : step p s l = some s' := h
  refine ⟨?_, serving.step known h⟩
  cases l with
  | net l =>
    obtain ⟨quiet, -, net, taken, rfl⟩ := step_net h
    exact ⟨_, under.step (serving.proper known quiet proper) taken⟩
  | onReceive n =>
    obtain ⟨x, at_n, handles⟩ := step_onReceive h
    have member := List.mem_of_getElem? at_n
    cases handles with
    | sends at_ net taken => exact ⟨_, under.step (serving.proper_send known member (proper x at_n at_)) taken⟩
    | returns => exact ⟨_, under⟩
    | frees at_ net taken => exact ⟨_, under.step (serving.proper_free member at_) taken⟩

/-- In every run of `EchoServer` the rules for packets and sessions are kept. Its references are those of its calls of
`OnReceive`, one for each packet, and a packet is in the pool, once, when it has been made and no such call has it,
no worker is about to make one, and no session is sending it. -/
theorem echo_server_gives_packets_back (fits : p.mMaxPayloadLength ≤ defaultSize) {s : State} (run : Run (echoServer p) (Proper p) tr s) :
    (∃ tr', Run (Duplex.duplex p) (Duplex.Proper p) tr' s.net) ∧
      (∀ n, s.traffic.refs n = if ∃ h ∈ s.handlers, h.packet = n then 1 else 0) ∧ s.traffic.pool.freed.Nodup ∧
      ∀ n, n ∈ s.traffic.pool.freed ↔ n < s.traffic.pool.made ∧ (∀ h ∈ s.handlers, h.packet ≠ n) ∧ (∀ c ∈ s.traffic.copied, c.packet ≠ n) ∧
        ∀ v ∈ s.server.mSessionList, Session.held n v = Session.early n v := by
  obtain ⟨⟨_, under⟩, serving⟩ := run_serving fits run
  obtain ⟨_, net⟩ := Duplex.run_net under
  obtain ⟨_, traffic⟩ := Network.run_server net
  obtain ⟨-, -, once, freed⟩ := packets_outlive_their_uses (run_owns traffic)
  have none (n : Nat) : s.traffic.refs n = 0 ↔ ∀ h ∈ s.handlers, h.packet ≠ n := by
    rw [serving.refs, List.count_eq_zero, List.mem_map]
    exact ⟨fun none h member is => none ⟨h, member, is⟩, fun none ⟨h, member, is⟩ => none h member is⟩
  refine ⟨⟨_, under⟩, fun n => ?_, once, fun n => ?_⟩
  · split
    next has =>
      obtain ⟨h, member, rfl⟩ := has
      exact serving.has member
    next hasnt => exact (none n).mpr fun h member is => hasnt ⟨h, member, is⟩
  · rw [← none]
    exact freed n

def freshEcho : State := { net := Duplex.freshDuplex }

theorem freshEcho_started : Started plainTraffic freshEcho := ⟨Duplex.freshDuplex_started, rfl⟩

/-- `OnReceive` gets the number 7. -/
def sevenCalled : List Label := Duplex.sevenSentUp.map .net

theorem seven_is_with_its_call : ∃ (tr : List (State × Label)) (s : State), tr.map Prod.snd = sevenCalled ∧
    s.traffic.refs 0 = 1 ∧ 0 ∉ s.traffic.pool.freed := by
  have along : Along (echoServer plainTraffic) (Proper plainTraffic) freshEcho sevenCalled := by decide +kernel
  obtain ⟨s, reached, run⟩ := Run.along (.init freshEcho_started) along
  have facts : (exec (echoServer plainTraffic) freshEcho sevenCalled).map (fun s => s.handlers.map Handler.packet) = some [0] := by decide +kernel
  rw [reached] at facts
  have packets : s.handlers.map Handler.packet = [0] := Option.some.inj facts
  have has : 0 ∈ s.handlers.map Handler.packet := by
    rw [packets]
    exact .head _
  obtain ⟨h, member, is⟩ := List.mem_map.mp has
  obtain ⟨-, refs, -, freed⟩ := echo_server_gives_packets_back (by decide) run
  refine ⟨_, s, trace_labels reached, (refs 0).trans (if_pos ⟨h, member, is⟩), fun inside => ?_⟩
  exact ((freed 0).mp inside).2.1 h member is

end WanNet.EchoServer
