import WanNet.Session.Delivery
import WanNet.Traffic.Lifetimes

/-!
What is in the packets that the sessions send: from the first `SendPacket` of a packet on it holds the
frame of what the application has written to it.
-/

namespace WanNet.Traffic
open Transition Serializer RefPool Session Threads

variable {p : Params} {s s' : State} {cfg : Config} {v v' u : Slot} {t t' : Thread} {pc pc' : Pc} {role : Role} {ans : Answer}
  {key key' i i' j n packet : Nat} {rand : UInt8} {q q' : Packet} {payload : List UInt8}

/-! ### Calls that prepare a packet -/

def Stage.busy : Stage → Bool
  | .mark | .header | .encode => true
  | .test | .ready => false

/-- The packet of a call that is about to test it, prepare it or count its reference. -/
def packetAt (s : State) (key i : Nat) : Option Nat := (threadAt s.server key i).bind fun x => incremented x.2

/-- A call has found the packet unprepared, and is not done with `prepareSend`. -/
structure Preparing (s : State) (key i packet : Nat) : Prop where
  busy : (s.stage key i).busy = true
  has : packetAt s key i = some packet

instance : Decidable (Preparing s key i packet) :=
  decidable_of_iff ((s.stage key i).busy = true ∧ packetAt s key i = some packet) ⟨fun h => ⟨h.1, h.2⟩, fun h => ⟨h.busy, h.has⟩⟩

structure Ready (s : State) (key i packet : Nat) : Prop where
  ready : s.stage key i = .ready
  has : packetAt s key i = some packet

/-- The application writes only to packets it has not passed to `SendPacket` yet, and no call tests a
packet while another one is preparing it. -/
def Unshared (s : State) : Label → Prop
  | .use packet call => call.reads = true ∨ (s.pool.object packet).mbSendPrepared = false ∧ ¬ Borrowed s packet
  | .prepare key i _ => s.stage key i = .test → ∀ packet ∈ packetAt s key i, ∀ key' ∈ List.range s.server.mMaxSessionCount,
      ∀ v ∈ s.server.mSessionList[key']?, ∀ i' ∈ List.range v.threads.length, ¬ Preparing s key' i' packet
  | _ => True

instance : Decidable (Unshared s l) :=
  match l with
  | .use _ _ => inferInstanceAs (Decidable (_ ∨ _ ∧ ¬ _))
  | .prepare _ _ _ => inferInstanceAs (Decidable (_ → _))
  | .alloc _ | .free _ | .server _ _ => .isTrue trivial

theorem packetAt_some (has : packetAt s key i = some packet) :
    ∃ v t, threadAt s.server key i = some (v, t) ∧ incremented t = some packet := by
  obtain ⟨⟨v, t⟩, there, is⟩ := Option.bind_eq_some_iff.mp has
  exact ⟨v, t, there, is⟩

theorem packetAt_of (there : threadAt s.server key i = some (v, t)) : packetAt s key i = incremented t := by
  simp [packetAt, there]

theorem unshared_alone (unshared : Unshared s (.prepare key i rand)) (test : s.stage key i = .test)
    (has : packetAt s key i = some packet) (key' i' : Nat) : ¬ Preparing s key' i' packet := by
  intro preparing
  obtain ⟨v, t, there, -⟩ := packetAt_some preparing.has
  obtain ⟨here, at_i⟩ := threadAt_some there
  exact unshared test packet has key' (List.mem_range.mpr (List.getElem?_eq_some_iff.mp here).1) v here i'
    (List.mem_range.mpr (List.getElem?_eq_some_iff.mp at_i).1) preparing

/-! ### Threads from step to step -/

theorem threadAt_eq {s : Server.NetServer} (here : s.mSessionList[key]? = some v) (at_i : v.threads[i]? = some t) :
    threadAt s key i = some (v, t) := by
  simp [threadAt, here, at_i]

theorem threadAt_same {s s' : Server.NetServer} (same : s'.mSessionList = s.mSessionList) : threadAt s' key i = threadAt s key i := by
  unfold threadAt
  rw [same]

/-- Where a thread was before the step. -/
theorem thread_was {r : Server.Params} {s s' : Server.NetServer} {l : Server.Label} (h : Server.step r s l = some s')
    (there : threadAt s' key i = some (v', t')) :
    (∃ v, threadAt s key i = some (v, t')) ∨ (threadAt s key i = none ∧ t'.pc.Start) ∨
      ∃ ans v t u pc', l = .at key (.thread i ans) ∧ threadAt s key i = some (v, t) ∧
        next (r.config key) v t.role ans t.pc = some (u, pc') ∧ t' = ⟨t.role, pc'⟩ := by
  rcases Server.step_slots h with ⟨same, -⟩ | ⟨k, v, w, l', here, taken, list, how⟩
  · rw [threadAt_same same] at there
    exact .inl ⟨v', there⟩
  · obtain ⟨at_key, at_i⟩ := threadAt_some there
    rw [list] at at_key
    rcases at_set at_key with ⟨rfl, rfl⟩ | ⟨apart, old⟩
    · rcases how with ⟨outside, -⟩ | ⟨m, ans, rfl, rfl⟩
      · rcases (step_outside taken outside).2 with still | ⟨new, more, start⟩
        · rw [still] at at_i
          exact .inl ⟨v, threadAt_eq here at_i⟩
        · rw [more] at at_i
          rcases at_append_one at_i with old | ⟨rfl, rfl⟩
          · exact .inl ⟨v, threadAt_eq here old⟩
          · refine .inr (.inl ⟨?_, start⟩)
            simp [threadAt, here]
      · obtain ⟨t, u, pc', at_m, advanced, rfl⟩ := step_thread taken
        rcases at_set at_i with ⟨rfl, rfl⟩ | ⟨-, old⟩
        · exact .inr (.inr ⟨ans, v, t, u, pc', rfl, threadAt_eq here at_m, advanced, rfl⟩)
        · exact .inl ⟨v, threadAt_eq here old⟩
    · exact .inl ⟨v', threadAt_eq old at_i⟩

/-- Where a thread is after the step. -/
theorem thread_goes {r : Server.Params} {s s' : Server.NetServer} {l : Server.Label} (h : Server.step r s l = some s')
    (there : threadAt s key i = some (v, t)) :
    ∃ v' t', threadAt s' key i = some (v', t') ∧ (t' = t ∨ ∃ ans u pc', l = .at key (.thread i ans) ∧
        next (r.config key) v t.role ans t.pc = some (u, pc') ∧ t' = ⟨t.role, pc'⟩) := by
  rcases Server.step_slots h with ⟨same, -⟩ | ⟨k, x, w, l', here, taken, list, how⟩
  · exact ⟨v, t, (threadAt_same same).trans there, .inl rfl⟩
  · obtain ⟨at_key, at_i⟩ := threadAt_some there
    by_cases same : key = k
    · subst same
      obtain rfl := Option.some.inj (at_key.symm.trans here)
      have now : s'.mSessionList[key]? = some w := by
        rw [list]
        exact List.getElem?_set_self (List.getElem?_eq_some_iff.mp here).1
      rcases how with ⟨outside, -⟩ | ⟨m, ans, rfl, rfl⟩
      · rcases (step_outside taken outside).2 with still | ⟨new, more, -⟩
        · exact ⟨w, t, threadAt_eq now (still ▸ at_i), .inl rfl⟩
        · refine ⟨w, t, threadAt_eq now ?_, .inl rfl⟩
          rw [more]
          exact List.getElem?_append_left (List.getElem?_eq_some_iff.mp at_i).1 |>.trans at_i
      · obtain ⟨x, u, pc', at_m, advanced, rfl⟩ := step_thread taken
        by_cases mine : i = m
        · subst mine
          obtain rfl := Option.some.inj (at_i.symm.trans at_m)
          exact ⟨_, ⟨t.role, pc'⟩, threadAt_eq now (List.getElem?_set_self (List.getElem?_eq_some_iff.mp at_i).1),
            .inr ⟨ans, u, pc', rfl, advanced, rfl⟩⟩
        · exact ⟨_, t, threadAt_eq now ((List.getElem?_set_ne (Ne.symm mine)).trans at_i), .inl rfl⟩
    · refine ⟨v, t, threadAt_eq ?_ at_i, .inl rfl⟩
      rw [list, List.getElem?_set_ne (Ne.symm same)]
      exact at_key

theorem Acts.same {l : Server.Label} (acts : Acts p s l j s') :
    s'.stage = s.stage ∧ s'.payload = s.payload ∧ s'.server = s.server := by
  cases acts with
  | retains | releases | aside => exact ⟨rfl, rfl, rfl⟩
  | copies key i ans v t is here at_ _ copied =>
    obtain rfl | ⟨packet, pool, frame, rest, q, ok, -, -, -, ⟨-, rfl⟩ | ⟨-, rfl⟩⟩ := copyFrame_cases copied
    all_goals exact ⟨rfl, rfl, rfl⟩
  | handsOver key i =>
    rcases handOver_cases s key i with same | ⟨c, -, -, -, same⟩
    all_goals
      rw [same]
      exact ⟨rfl, rfl, rfl⟩

/-- A call that is at the packet is past its first test only where it is about to count its reference, or past that. -/
def Untested (s : State) : Prop := ∀ key i, s.stage key i ≠ .test →
  ∃ v t, threadAt s.server key i = some (v, t) ∧ (t.pc = .callAddRef ∨ beforeAddRef t.pc = false)

theorem next_callAddRef (h : next cfg v role ans .callAddRef = some (u, pc')) : beforeAddRef pc' = false := by
  cases next_moves h
  rfl

theorem Untested.server {r : Server.Params} {l : Server.Label} {after : Server.NetServer} (untested : Untested s)
    (h : Server.step r s.server l = some after) (server : s'.server = after) (stage : s'.stage = s.stage) : Untested s' := by
  intro key i tested
  rw [stage] at tested
  obtain ⟨v, t, there, at_⟩ := untested key i tested
  obtain ⟨v', t', there', rfl | ⟨ans, u, pc', -, advanced, rfl⟩⟩ := thread_goes h there
  · exact ⟨v', t', server ▸ there', at_⟩
  · refine ⟨v', _, server ▸ there', .inr ?_⟩
    rcases at_ with here | past
    · rw [here] at advanced
      exact next_callAddRef advanced
    · by_contra before
      have was := next_beforeAddRef advanced (by simpa using before)
      exact absurd (past.symm.trans was) Bool.false_ne_true

/-- A call that reaches its packet has tested nothing yet. -/
theorem stage_of_arrival {r : Server.Params} {l : Server.Label} {after : Server.NetServer} (untested : Untested s)
    (h : Server.step r s.server l = some after) (server : s'.server = after)
    (has : packetAt s' key i = some packet) : packetAt s key i = some packet ∨ s.stage key i = .test := by
  obtain ⟨v', t', there', is⟩ := packetAt_some has
  rcases thread_was h (server ▸ there') with ⟨v, there⟩ | ⟨none, -⟩ | ⟨ans, v, t, u, pc', -, there, advanced, rfl⟩
  · exact .inl ((packetAt_of there).trans is)
  · right
    by_contra tested
    obtain ⟨v, t, there, -⟩ := untested key i tested
    cases none.symm.trans there
  · right
    by_contra tested
    obtain ⟨v, x, there', at_⟩ := untested key i tested
    obtain ⟨rfl, rfl⟩ := Prod.mk.inj (Option.some.inj (there.symm.trans there'))
    obtain ⟨arrived, -⟩ := incremented_iff.mp is
    obtain rfl : pc' = .callAddRef := arrived
    rcases at_ with here | past
    · rw [here] at advanced
      cases next_callAddRef advanced
    · cases past.symm.trans (next_beforeAddRef advanced rfl)

/-- A reference is counted when the packet is ready. -/
theorem Acts.ready_at (acts : Acts p s (.at key (.thread i ans)) j s') (there : threadAt s.server key i = some (v, t))
    (is : incremented t = some n) : s.stage key i = .ready := by
  obtain ⟨at_key, at_i⟩ := threadAt_some there
  have incs := (Server.thread_events (p := p.server) ans at_key at_i).1.trans is
  cases acts with
  | retains _ _ _ ready => exact ready key i ans rfl
  | releases _ none => cases none.symm.trans incs
  | aside none => cases none.symm.trans incs
  | copies key' i' ans' v' t' is' here at_ =>
    cases is'
    obtain ⟨rfl, rfl⟩ := Prod.mk.inj (Option.some.inj (there.symm.trans here))
    cases at_.symm.trans (incremented_iff.mp is).1
  | handsOver key' i' ans' v' t' frame is' here at_ =>
    cases is'
    obtain ⟨rfl, rfl⟩ := Prod.mk.inj (Option.some.inj (there.symm.trans here))
    cases at_.symm.trans (incremented_iff.mp is).1

/-- No step of the server starts or ends a preparation. -/
theorem preparing_server {l : Server.Label} {s₁ : State} {after : Server.NetServer} (untested : Untested s)
    (acts : Acts p s l j s₁) (h : Server.step p.server s.server l = some after) (n : Nat) :
    Preparing { s₁ with server := after } key i n ↔ Preparing s key i n := by
  obtain ⟨stage, -, -⟩ := acts.same
  have stage' : ({ s₁ with server := after } : State).stage = s.stage := stage
  constructor
  · rintro ⟨busy, has⟩
    rw [stage'] at busy
    rcases stage_of_arrival untested h rfl has with had | test
    · exact ⟨busy, had⟩
    · rw [test] at busy
      cases busy
  · rintro ⟨busy, has⟩
    refine ⟨by rw [stage']; exact busy, ?_⟩
    obtain ⟨v, t, there, is⟩ := packetAt_some has
    obtain ⟨v', t', there', rfl | ⟨ans, u, pc', rfl, advanced, rfl⟩⟩ := thread_goes h there
    · exact (packetAt_of (s := { s₁ with server := after }) there').trans is
    · -- the thread would be counting its reference, which waits for the preparation
      rw [acts.ready_at there is] at busy
      cases busy

theorem ready_server {l : Server.Label} {s₁ : State} {after : Server.NetServer} (untested : Untested s)
    (acts : Acts p s l j s₁) (h : Server.step p.server s.server l = some after)
    (ready : Ready { s₁ with server := after } key i n) : Ready s key i n := by
  obtain ⟨stage, -, -⟩ := acts.same
  have stage' : ({ s₁ with server := after } : State).stage = s.stage := stage
  obtain ⟨is, has⟩ := ready
  rw [stage'] at is
  rcases stage_of_arrival untested h rfl has with had | test
  · exact ⟨is, had⟩
  · cases is.symm.trans test

/-! ### What is in a packet -/

/-- A payload behind its header, encoded. -/
def Framed (q : Packet) (payload : List UInt8) : Prop :=
  payload.length ≤ defaultSize ∧ ∃ rand, q.sent = .ok (wire rand payload)

/-- What a call knows of the packet it is preparing. -/
def Fits (q : Packet) (payload : List UInt8) : Stage → Prop
  | .mark => q.mbSendPrepared = false
  | .header => q.mbSendPrepared = true ∧ contents q = payload
  | .encode => q.mbSendPrepared = true ∧ ∃ rand, Packet.Headed q rand payload
  | .test | .ready => True

/-- Prepared, from `prepareSend` to its last byte. -/
structure Complete (s : State) (n : Nat) : Prop where
  flag : (s.pool.object n).mbSendPrepared = true
  done : ∀ key i, ¬ Preparing s key i n

/-- A session has a reference on the packet. -/
def Kept (s : State) (n : Nat) : Prop := total (early n) s.server.mSessionList < total (held n) s.server.mSessionList

structure Contents (s : State) : Prop where
  untested : Untested s
  sized : ∀ n, 0 < references (s.pool.object n) → ∃ k, Represents (s.pool.object n) k
  alone : ∀ n key i key' i', Preparing s key i n → Preparing s key' i' n → key = key' ∧ i = i'
  steps : ∀ n key i, Preparing s key i n → Fits (s.pool.object n) (s.payload n) (s.stage key i)
  framed : ∀ n, 0 < references (s.pool.object n) → Complete s n → Framed (s.pool.object n) (s.payload n)
  ready : ∀ n key i, Ready s key i n → Complete s n
  kept : ∀ n, Kept s n → Complete s n

theorem Contents.init (started : Started p s) : Contents s := by
  have none (key i n : Nat) : ¬ Preparing s key i n := fun preparing => by
    have := preparing.busy
    rw [started.stages] at this
    cases this
  refine ⟨fun key i tested => absurd (started.stages key i) tested, fun n used => ?_, fun n key i _ _ preparing => absurd preparing (none _ _ _),
    fun n key i preparing => absurd preparing (none _ _ _), fun n used => ?_, fun n key i ready => ?_, fun n kept => ?_⟩
  · rw [started.pool.2.2] at used
    cases used
  · rw [started.pool.2.2] at used
    cases used
  · cases (started.stages key i).symm.trans ready.ready
  · obtain ⟨held, early⟩ := Server.started_empty n started.server
    unfold Kept at kept
    omega

theorem represents_of_size (sized : q.mDeserialingSize.toNat ≤ q.mSize.toNat) (fits : q.mSize.toNat ≤ defaultSize) :
    ∃ k, Represents q k := by
  have inside : NetworkHeader.size + q.mDeserialingSize.toNat + (q.mSize.toNat - q.mDeserialingSize.toNat) ≤
      NetworkHeader.size + defaultSize := by omega
  obtain ⟨data, bytes⟩ : ∃ data, Block.read q.memory (NetworkHeader.size + q.mDeserialingSize.toNat)
      (q.mSize.toNat - q.mDeserialingSize.toNat) = some data := ⟨_, Block.read_inside inside⟩
  have length := Block.read_length bytes
  refine ⟨⟨data, q.mDeserialingSize.toNat⟩, rfl, ?_, fits, ?_⟩
  · show q.mSize.toNat = q.mDeserialingSize.toNat + data.length
    omega
  · rw [length]
    exact bytes

theorem Represents.range {k : Queue} (rep : Represents q k) : q.mDeserialingSize.toNat ≤ q.mSize.toNat ∧ q.mSize.toNat ≤ defaultSize := by
  have := rep.size
  have := rep.read
  exact ⟨by omega, rep.room⟩

/-- The payload is all there. -/
theorem read_contents {k : Queue} (rep : Represents q k) :
    Block.read q.memory NetworkHeader.size q.mSize.toNat = some (contents q) := by
  have inside : NetworkHeader.size + q.mSize.toNat ≤ NetworkHeader.size + defaultSize := Nat.add_le_add_left rep.room _
  unfold contents
  rw [Block.read_inside inside]
  rfl

/-- What a step makes of an object, its count aside: nothing, or a packet just taken from the pool. -/
inductive Change (q q' : Packet) : Prop where
  | same (alike : ∃ count, q' = { q with mRefCount := count }) (used : 0 < references q' → 0 < references q)
  | fresh (unused : references q = 0) (new : 0 < references q' → q'.mbSendPrepared = false ∧ ∃ k, Represents q' k)

theorem Change.refl (q : Packet) : Change q q := .same ⟨q.mRefCount, rfl⟩ id

/-- Everybody who has to do with a packet has a reference on it. -/
theorem Ledger.of_packetAt (ledger : Ledger s) (slots : Server.Slots r s.server) (has : packetAt s key i = some n) :
    0 < references (s.pool.object n) := by
  obtain ⟨v, t, there, is⟩ := packetAt_some has
  exact ledger.borrowed_used slots there (borrows_of_incremented is)

/-- A step that starts or ends no preparation, and changes no packet that anyone has. -/
theorem Contents.carry (contents : Contents s) (ledger : Ledger s) (slots : Server.Slots r s.server) (untested : Untested s')
    (objects : ∀ n, Change (s.pool.object n) (s'.pool.object n)) (stage : s'.stage = s.stage) (payload : s'.payload = s.payload)
    (preparing : ∀ key i n, Preparing s' key i n ↔ Preparing s key i n) (ready : ∀ key i n, Ready s' key i n → Ready s key i n)
    (kept : ∀ n, Kept s' n → Kept s n ∨ ∃ key i, Ready s key i n) : Contents s' := by
  have complete {n : Nat} (used : 0 < references (s.pool.object n)) : Complete s n → Complete s' n := by
    intro was
    cases objects n with
    | same alike =>
      obtain ⟨count, is⟩ := alike
      exact ⟨by rw [is]; exact was.flag, fun key i now => was.done key i ((preparing key i n).mp now)⟩
    | fresh unused => omega
  refine ⟨untested, fun n used => ?_, fun n key i key' i' one other => ?_, fun n key i now => ?_, fun n used now => ?_,
    fun n key i now => ?_, fun n now => ?_⟩
  · cases objects n with
    | same alike before =>
      obtain ⟨count, is⟩ := alike
      obtain ⟨k, rep⟩ := contents.sized n (before used)
      rw [is]
      exact ⟨k, rep.read, rep.size, rep.room, rep.bytes⟩
    | fresh _ new => exact (new used).2
  · exact contents.alone n key i key' i' ((preparing ..).mp one) ((preparing ..).mp other)
  · have was := (preparing key i n).mp now
    have fits := contents.steps n key i was
    rw [stage, payload]
    cases objects n with
    | same alike =>
      obtain ⟨count, is⟩ := alike
      rw [is]
      cases at_ : s.stage key i with
      | encode =>
        rw [at_] at fits
        obtain ⟨flag, rand, headed⟩ := fits
        exact ⟨flag, rand, headed.size, headed.fits, headed.stands⟩
      | _ =>
        rw [at_] at fits
        exact fits
    | fresh unused =>
      have := ledger.of_packetAt slots was.has
      omega
  · cases objects n with
    | same alike before =>
      obtain ⟨count, is⟩ := alike
      have was : Complete s n := ⟨by have := now.flag; rwa [is] at this, fun key i then_ => now.done key i ((preparing key i n).mpr then_)⟩
      rw [is, payload]
      exact contents.framed n (before used) was
    | fresh _ new => exact absurd ((new used).1.symm.trans now.flag) Bool.false_ne_true
  · have was := ready key i n now
    exact complete (ledger.of_packetAt slots was.has) (contents.ready n key i was)
  · rcases kept n now with was | ⟨key, i, was⟩
    · exact complete (ledger.used slots (.inr (.inr was))) (contents.kept n was)
    · exact complete (ledger.of_packetAt slots was.has) (contents.ready n key i was)

/-! ### The steps -/

theorem change_set {pool : Pool Packet} (others : ∀ n, n ≠ packet → pool.object n = s.pool.object n)
    (changes : Change (s.pool.object packet) q) (n : Nat) : Change (s.pool.object n) ((pool.set packet q).object n) := by
  by_cases here : n = packet
  · subst here
    rw [set_self]
    exact changes
  · rw [set_other _ _ here, others n here]
    exact .refl _

/-- A frame fits the packet it is copied to. -/
theorem receive_represents {pooled : Packet} {frame rest} {rb : RingBuffer RecvByte} {ok : Bool} (fits : p.mMaxPayloadLength ≤ defaultSize)
    (turn : packetLoop p.mMaxPayloadLength (fun _ => true) rb = .deliver frame rest)
    (received : pooled.receive (frame.map RecvByte.byte) (UInt16.ofNat (headerLength frame)) = .ok (q, ok)) :
    q.mbSendPrepared = false ∧ ∃ k, Represents q k := by
  obtain ⟨memory, rfl⟩ := Packet.receive_memory received
  have short : headerLength frame ≤ p.mMaxPayloadLength := (packetLoop_accepts turn).1.header.2
  have length : (UInt16.ofNat (headerLength frame)).toNat = headerLength frame := by
    apply UInt16.toNat_ofNat_of_lt'
    simp only [defaultSize, UInt16.size] at fits ⊢
    omega
  refine ⟨rfl, represents_of_size (Nat.zero_le _) ?_⟩
  show (UInt16.ofNat (headerLength frame)).toUInt32.toNat ≤ defaultSize
  rw [UInt16.toNat_toUInt32, length]
  omega

theorem Acts.objects {l : Server.Label} (acts : Acts p s l j s') (ledger : Ledger s) (slots : Server.Slots p.server s.server)
    (fits : p.mMaxPayloadLength ≤ defaultSize) (n : Nat) : Change (s.pool.object n) (s'.pool.object n) := by
  cases acts with
  | retains packet incs =>
    obtain ⟨key, i, ans, v, t, -, here, is⟩ := threadAt_of_increment incs
    have used := ledger.borrowed_used slots here (borrows_of_incremented is)
    exact change_set (fun _ _ => rfl) (.same ⟨_, rfl⟩ fun _ => used) n
  | releases packet incs decs =>
    have used := ledger.used slots (.inr (.inr (slots.retains_of_drop decs)))
    show Change _ ((s.pool.drop references packet _).object n)
    rw [drop_object]
    exact change_set (fun _ _ => rfl) (.same ⟨_, rfl⟩ fun _ => used) n
  | copies key i ans v t is here at_ _ copied =>
    rcases copyFrame_cases copied with rfl | ⟨packet, pool, frame, rest, q, ok, taken, turn, received, how⟩
    · exact .refl _
    · obtain ⟨unused, -⟩ := ledger.sound.taken j
      have object := take_object s.pool j
      rw [taken] at unused object
      have new := receive_represents fits turn received
      obtain ⟨-, rfl⟩ | ⟨-, rfl⟩ := how
      · exact change_set (fun m _ => congrFun object m) (.fresh unused fun _ => new) n
      · have first := references_received unused received
        show Change _ (((pool.set packet q).drop references packet _).object n)
        rw [drop_object, set_self]
        have none := references_decremented (q := q) (by omega)
        refine change_set (fun m apart => ?_) (.fresh unused fun used => by omega) n
        rw [set_other _ _ apart, object]
  | handsOver key i =>
    rcases handOver_cases s key i with same | ⟨c, -, -, -, same⟩
    all_goals
      rw [same]
      exact .refl _
  | aside => exact .refl _

theorem Contents.server {l : Server.Label} {server : Server.NetServer} (contents : Contents s) (ledger : Ledger s)
    (slots : Server.Slots p.server s.server) (fits : p.mMaxPayloadLength ≤ defaultSize) (acts : Acts p s l j s')
    (h : Server.step p.server s.server l = some server) : Contents { s' with server := server } := by
  obtain ⟨stage, payload, -⟩ := acts.same
  refine contents.carry ledger slots (contents.untested.server h rfl stage) (acts.objects ledger slots fits) stage payload
    (fun key i n => preparing_server contents.untested acts h n) (fun key i n => ready_server contents.untested acts h) fun n now => ?_
  have moves := Server.step_ledger n slots h
  have now : total (early n) server.mSessionList < total (held n) server.mSessionList := now
  cases incs : Server.incrementOf (s.server, l) with
  | none =>
    rw [incs, Option.toList_none, List.count_nil] at moves
    left
    unfold Kept
    omega
  | some packet =>
    rw [incs, count_one] at moves
    split at moves
    next here =>
      subst here
      obtain ⟨key, i, ans, v, t, rfl, there, is⟩ := threadAt_of_increment incs
      exact .inr ⟨key, i, acts.ready_at there is, (packetAt_of there).trans is⟩
    · left
      unfold Kept
      omega

theorem Contents.alloc (contents : Contents s) (ledger : Ledger s) (slots : Server.Slots p.server s.server)
    (h : step p s (.alloc j) = some s') : Contents s' := by
  obtain rfl := Option.some.inj h
  obtain ⟨unused, -⟩ := ledger.sound.taken j
  refine contents.carry ledger slots contents.untested ?_ rfl rfl (fun _ _ _ => ⟨fun h => ⟨h.busy, h.has⟩, fun h => ⟨h.busy, h.has⟩⟩)
    (fun _ _ _ h => ⟨h.ready, h.has⟩) fun n now => .inl now
  exact change_set (fun m _ => congrFun (take_object s.pool j) m) (.fresh unused fun _ => ⟨rfl, {}, represents_alloc _⟩)

theorem Contents.free (contents : Contents s) (ledger : Ledger s) (slots : Server.Slots p.server s.server)
    (owns : Owns p s (.free packet)) (h : step p s (.free packet) = some s') : Contents s' := by
  obtain rfl := Option.some.inj h
  refine contents.carry ledger slots contents.untested (fun n => ?_) rfl rfl (fun _ _ _ => ⟨fun h => ⟨h.busy, h.has⟩, fun h => ⟨h.busy, h.has⟩⟩)
    (fun _ _ _ h => ⟨h.ready, h.has⟩) fun n now => .inl now
  have used := ledger.used slots (.inl owns.1)
  show Change _ ((s.pool.drop references packet _).object n)
  rw [drop_object]
  exact change_set (fun _ _ => rfl) (.same ⟨_, rfl⟩ fun _ => used) n

/-- The application changes a packet it has a reference on. -/
theorem Contents.put (contents : Contents s) (used : 0 < references (s.pool.object packet)) (same : references q = references (s.pool.object packet))
    (sized : ∃ k, Represents q k) (steps : ∀ key i, Preparing s key i packet → Fits q (s.payload packet) (s.stage key i))
    (flag : Complete s packet → q.mbSendPrepared = true)
    (framed : q.mbSendPrepared = true → (∀ key i, ¬ Preparing s key i packet) → Framed q (s.payload packet)) :
    Contents (s.put packet q) := by
  have object (n : Nat) : (s.put packet q).pool.object n = if n = packet then q else s.pool.object n := rfl
  have preparing {key i n : Nat} (now : Preparing (s.put packet q) key i n) : Preparing s key i n := ⟨now.busy, now.has⟩
  have complete {n : Nat} (was : Complete s n) : Complete (s.put packet q) n := by
    refine ⟨?_, fun key i now => was.done key i (preparing now)⟩
    rw [object]
    split
    next here => exact flag (here ▸ was)
    · exact was.flag
  refine ⟨contents.untested, fun n uses => ?_, fun n key i key' i' one other => contents.alone n key i key' i' (preparing one) (preparing other),
    fun n key i now => ?_, fun n uses now => ?_, fun n key i now => complete (contents.ready n key i ⟨now.ready, now.has⟩),
    fun n now => complete (contents.kept n now)⟩
  · rw [object] at uses ⊢
    split at uses
    next here => exact (if_pos here).symm ▸ sized
    next other =>
      rw [if_neg other]
      exact contents.sized n uses
  · rw [object]
    split
    next here =>
      subst here
      exact steps key i (preparing now)
    · exact contents.steps n key i (preparing now)
  · have flag := now.flag
    have done (key i : Nat) : ¬ Preparing s key i n := fun was => now.done key i ⟨was.busy, was.has⟩
    rw [object] at uses flag ⊢
    split at uses
    next here =>
      subst here
      rw [if_pos rfl] at flag ⊢
      exact framed flag done
    next other =>
      rw [if_neg other] at flag ⊢
      exact contents.framed n uses ⟨flag, done⟩

theorem Contents.use {call : Serializer.Call} (contents : Contents s) (ledger : Ledger s) (slots : Server.Slots p.server s.server)
    (owns : Owns p s (.use packet call)) (unshared : Unshared s (.use packet call)) (h : step p s (.use packet call) = some s') :
    Contents s' := by
  obtain ⟨⟨q, r⟩, called, rfl⟩ := Option.map_eq_some_iff.mp h
  have called := toOption_eq_some called
  have used := ledger.used slots (.inl owns)
  have same : references q = references (s.pool.object packet) := congrArg UInt32.toNat (Packet.call_mRefCount called)
  have sized : ∃ k, Represents q k := by
    obtain ⟨k, rep⟩ := contents.sized packet used
    have after := rep.call call
    split at after
    next k' r' _ =>
      obtain ⟨q', is, rep'⟩ := after
      rw [called] at is
      cases is
      exact ⟨k', rep'⟩
    · rw [called] at after
      cases after
  cases reads : call.reads with
  | true =>
    obtain ⟨taken, rfl⟩ := Packet.call_reads called reads
    refine contents.put used same sized (fun key i now => ?_) (fun was => was.flag) fun flag done => contents.framed packet used ⟨flag, done⟩
    have fits := contents.steps packet key i now
    cases at_ : s.stage key i with
    | encode =>
      rw [at_] at fits
      obtain ⟨flag, rand, headed⟩ := fits
      exact ⟨flag, rand, headed.size, headed.fits, headed.stands⟩
    | _ =>
      rw [at_] at fits
      exact fits
  | false =>
    obtain ⟨unprepared, unborrowed⟩ : (s.pool.object packet).mbSendPrepared = false ∧ ¬ Borrowed s packet := by
      rcases unshared with only | unused
      · exact absurd (reads.symm.trans only) Bool.false_ne_true
      · exact unused
    have still : q.mbSendPrepared = false := by
      obtain rfl | ⟨memory, size, rfl⟩ := Packet.call_writes called reads
      · rfl
      · exact unprepared
    refine contents.put used same sized (fun key i now => ?_) (fun was => ?_) fun flag _ => ?_
    · obtain ⟨v, t, there, is⟩ := packetAt_some now.has
      obtain ⟨here, at_i⟩ := threadAt_some there
      exact absurd ⟨v, List.mem_of_getElem? here, t, List.mem_of_getElem? at_i, borrows_of_incremented is⟩ unborrowed
    · exact absurd (unprepared.symm.trans was.flag) Bool.false_ne_true
    · exact absurd (still.symm.trans flag) Bool.false_ne_true

/-! ### The steps of a preparation -/

/-- A call takes its preparation one stage further; until it is ready, nobody else counts on the packet. -/
structure Advance (s s' : State) (key i packet : Nat) (q : Packet) (payload : List UInt8) (stage : Stage) : Prop where
  server : s'.server = s.server
  object : ∀ n, s'.pool.object n = if n = packet then q else s.pool.object n
  payloads : ∀ n, s'.payload n = if n = packet then payload else s.payload n
  stages : ∀ k m, s'.stage k m = if k = key ∧ m = i then stage else s.stage k m
  has : packetAt s key i = some packet
  sole : ∀ k m, Preparing s k m packet → k = key ∧ m = i
  fits : Fits q payload stage
  waits : stage ≠ .ready → stage.busy = true ∧ ¬ Complete s packet
  done : stage = .ready → q.mbSendPrepared = true ∧ Framed q payload

theorem Advance.preparing {stage : Stage} (advance : Advance s s' key i packet q payload stage) {k m n : Nat}
    (now : Preparing s' k m n) : k = key ∧ m = i ∧ n = packet ∧ stage.busy = true ∨ ¬ (k = key ∧ m = i) ∧ Preparing s k m n := by
  have busy := now.busy
  have has : packetAt s k m = some n := by
    have := now.has
    rwa [packetAt, advance.server] at this
  rw [advance.stages] at busy
  split at busy
  next here =>
    obtain ⟨rfl, rfl⟩ := here
    exact .inl ⟨rfl, rfl, Option.some.inj (has.symm.trans advance.has), busy⟩
  next other => exact .inr ⟨other, busy, has⟩

theorem Advance.complete {stage : Stage} (advance : Advance s s' key i packet q payload stage) (is : stage = .ready) :
    Complete s' packet := by
  refine ⟨?_, fun k m now => ?_⟩
  · rw [advance.object, if_pos rfl]
    exact (advance.done is).1
  · rcases advance.preparing now with ⟨-, -, -, busy⟩ | ⟨other, was⟩
    · rw [is] at busy
      cases busy
    · exact other (advance.sole k m was)

theorem Advance.completes {stage : Stage} (advance : Advance s s' key i packet q payload stage) (was : Complete s n) :
    Complete s' n := by
  by_cases here : n = packet
  · subst here
    by_cases is : stage = .ready
    · exact advance.complete is
    · exact absurd was (advance.waits is).2
  · refine ⟨?_, fun k m now => ?_⟩
    · rw [advance.object, if_neg here]
      exact was.flag
    · rcases advance.preparing now with ⟨-, -, is, -⟩ | ⟨-, before⟩
      · exact here is
      · exact was.done k m before

theorem Contents.advance (contents : Contents s) (stage : Stage) (q : Packet) (payload : List UInt8) (advance : Advance s s' key i packet q payload stage)
    (same : references q = references (s.pool.object packet)) (sized : ∃ k, Represents q k) : Contents s' := by
  refine ⟨fun k m tested => ?_, fun n uses => ?_, fun n k m k' m' one other => ?_, fun n k m now => ?_, fun n uses now => ?_,
    fun n k m now => ?_, fun n now => ?_⟩
  · rw [advance.server]
    rw [advance.stages] at tested
    split at tested
    next here =>
      obtain ⟨rfl, rfl⟩ := here
      obtain ⟨v, t, there, is⟩ := packetAt_some advance.has
      exact ⟨v, t, there, .inl (incremented_iff.mp is).1⟩
    · exact contents.untested k m tested
  · rw [advance.object] at uses ⊢
    split at uses
    next here => exact (if_pos here).symm ▸ sized
    next other =>
      rw [if_neg other]
      exact contents.sized n uses
  · rcases advance.preparing one with ⟨rfl, rfl, rfl, -⟩ | ⟨apart, was⟩
    · rcases advance.preparing other with ⟨rfl, rfl, -, -⟩ | ⟨apart, was⟩
      · exact ⟨rfl, rfl⟩
      · exact absurd (advance.sole k' m' was) apart
    · rcases advance.preparing other with ⟨rfl, rfl, rfl, -⟩ | ⟨-, was'⟩
      · exact absurd (advance.sole k m was) apart
      · exact contents.alone n k m k' m' was was'
  · rcases advance.preparing now with ⟨rfl, rfl, rfl, -⟩ | ⟨apart, was⟩
    · rw [advance.object, advance.payloads, advance.stages, if_pos rfl, if_pos rfl, if_pos ⟨rfl, rfl⟩]
      exact advance.fits
    · have other : n ≠ packet := by
        rintro rfl
        exact apart (advance.sole k m was)
      rw [advance.object, advance.payloads, advance.stages, if_neg other, if_neg other, if_neg apart]
      exact contents.steps n k m was
  · by_cases here : n = packet
    · subst here
      rw [advance.object, advance.payloads, if_pos rfl, if_pos rfl]
      by_cases is : stage = .ready
      · exact (advance.done is).2
      · refine absurd ⟨?_, ?_⟩ (now.done key i)
        · rw [advance.stages, if_pos ⟨rfl, rfl⟩]
          exact (advance.waits is).1
        · rw [packetAt, advance.server]
          exact advance.has
    · rw [advance.object, if_neg here] at uses
      rw [advance.object, advance.payloads, if_neg here, if_neg here]
      refine contents.framed n uses ⟨?_, fun k m was => ?_⟩
      · have := now.flag
        rwa [advance.object, if_neg here] at this
      · refine now.done k m ⟨?_, ?_⟩
        · have apart : ¬ (k = key ∧ m = i) := by
            rintro ⟨rfl, rfl⟩
            exact here (Option.some.inj (was.has.symm.trans advance.has))
          rw [advance.stages, if_neg apart]
          exact was.busy
        · rw [packetAt, advance.server]
          exact was.has
  · obtain ⟨is, has⟩ := now
    rw [packetAt, advance.server] at has
    rw [advance.stages] at is
    split at is
    next here =>
      obtain ⟨rfl, rfl⟩ := here
      obtain rfl := Option.some.inj (advance.has.symm.trans has)
      exact advance.complete is
    · exact advance.completes (contents.ready n k m ⟨is, has⟩)
  · have was : Kept s n := by
      unfold Kept at now ⊢
      rwa [advance.server] at now
    exact advance.completes (contents.kept n was)

theorem Contents.prepare (contents : Contents s) (ledger : Ledger s) (slots : Server.Slots p.server s.server)
    (unshared : Unshared s (.prepare key i rand)) (has : packetAt s key i = some packet) (prepares : Prepares s key i packet rand s') :
    Contents s' := by
  have used := ledger.of_packetAt slots has
  obtain ⟨k, rep⟩ := contents.sized packet used
  have self (n : Nat) : s.pool.object n = if n = packet then s.pool.object packet else s.pool.object n := by
    split
    next here => rw [here]
    · rfl
  have selfPayload (n : Nat) : s.payload n = if n = packet then s.payload packet else s.payload n := by
    split
    next here => rw [here]
    · rfl
  have sole {st : Stage} (at_ : s.stage key i = st) (busy : st.busy = true) :
      Preparing s key i packet ∧ ∀ k m, Preparing s k m packet → k = key ∧ m = i := by
    have own : Preparing s key i packet := ⟨at_ ▸ busy, has⟩
    refine ⟨own, fun k m other => ?_⟩
    obtain ⟨rfl, rfl⟩ := contents.alone packet key i k m own other
    exact ⟨rfl, rfl⟩
  cases prepares with
  | tests at_ =>
    have none := unshared_alone unshared at_ has
    cases flag : (s.pool.object packet).mbSendPrepared with
    | true =>
      have framed := contents.framed packet used ⟨flag, none⟩
      exact contents.advance .ready (s.pool.object packet) (s.payload packet)
        ⟨rfl, self, selfPayload, fun _ _ => rfl, has, fun k m other => absurd other (none k m), trivial, fun not => absurd rfl not,
          fun _ => ⟨flag, framed⟩⟩ rfl ⟨k, rep⟩
    | false =>
      exact contents.advance .mark (s.pool.object packet) (s.payload packet)
        ⟨rfl, self, selfPayload, fun _ _ => rfl, has, fun k m other => absurd other (none k m), flag,
          fun _ => ⟨rfl, fun was => absurd (flag.symm.trans was.flag) Bool.false_ne_true⟩, nofun⟩ rfl ⟨k, rep⟩
  | marks at_ =>
    obtain ⟨own, sole⟩ := sole at_ rfl
    exact contents.advance .header { s.pool.object packet with mbSendPrepared := true } _
      ⟨rfl, fun _ => rfl, fun _ => rfl, fun _ _ => rfl, has, sole, ⟨rfl, rfl⟩, fun _ => ⟨rfl, fun was => was.done key i own⟩, nofun⟩ rfl
      ⟨k, rep.read, rep.size, rep.room, rep.bytes⟩
  | writesHeader q at_ set =>
    obtain ⟨own, sole⟩ := sole at_ rfl
    have fits := contents.steps packet key i own
    rw [at_] at fits
    obtain ⟨flag, is⟩ := fits
    obtain ⟨q', set', headed⟩ := Packet.setHeaderValue_headed (read_contents rep) rand
    obtain rfl := Except.ok.inj (set.symm.trans set')
    rw [is] at headed
    obtain ⟨memory, rfl⟩ := Packet.setHeaderValue_memory set
    exact contents.advance .encode _ _
      ⟨rfl, fun _ => rfl, selfPayload, fun _ _ => rfl, has, sole, ⟨flag, rand, headed⟩, fun _ => ⟨rfl, fun was => was.done key i own⟩, nofun⟩ rfl
      (represents_of_size (Represents.range rep).1 (Represents.range rep).2)
  | encodes q at_ encodes =>
    obtain ⟨own, sole⟩ := sole at_ rfl
    have fits := contents.steps packet key i own
    rw [at_] at fits
    obtain ⟨flag, rand', headed⟩ := fits
    obtain ⟨q', encoded, sent⟩ := headed.encode
    obtain rfl := Except.ok.inj (encodes.symm.trans encoded)
    obtain ⟨memory, rfl⟩ := Packet.sweep_memory encodes
    exact contents.advance .ready _ _
      ⟨rfl, fun _ => rfl, selfPayload, fun _ _ => rfl, has, sole, trivial, fun not => absurd rfl not,
        fun _ => ⟨flag, headed.fits, rand', sent⟩⟩ rfl (represents_of_size (Represents.range rep).1 (Represents.range rep).2)

/-! ### Runs -/

theorem Contents.step {l : Label} (contents : Contents s) (ledger : Ledger s) (slots : Server.Slots p.server s.server)
    (fits : p.mMaxPayloadLength ≤ defaultSize) (owns : Owns p s l) (unshared : Unshared s l) (h : step p s l = some s') : Contents s' := by
  cases l with
  | alloc j => exact contents.alloc ledger slots h
  | free packet => exact contents.free ledger slots owns h
  | use packet call => exact contents.use ledger slots owns unshared h
  | prepare key i rand =>
    obtain ⟨⟨v, t⟩, there, h⟩ := Option.bind_eq_some_iff.mp h
    obtain ⟨packet, is, h⟩ := Option.bind_eq_some_iff.mp h
    exact contents.prepare ledger slots unshared ((packetAt_of there).trans is) (prepare_cases h)
  | server l j =>
    obtain ⟨s₁, acted, h⟩ := Option.bind_eq_some_iff.mp h
    obtain ⟨server, taken, rfl⟩ := Option.map_eq_some_iff.mp h
    exact contents.server ledger slots fits (act_cases acted) taken

/-- What the application keeps to with packets and with what is in them. -/
def Proper (p : Params) (s : State) (l : Label) : Prop := Owns p s l ∧ Unshared s l

instance : Decidable (Proper p s l) := inferInstanceAs (Decidable (_ ∧ _))

theorem run_owns (run : Run (traffic p) (Proper p) tr s) : Run (traffic p) (Owns p) tr s := run.mono fun _ _ proper => proper.1

theorem run_contents (fits : p.mMaxPayloadLength ≤ defaultSize) (run : Run (traffic p) (Proper p) tr s) : Contents s :=
  run.invariant (I := fun _ s => Contents s) (fun _ started => .init started) fun _ _ _ _ before contents proper h =>
    contents.step (run_ledger (run_owns before)) (run_slots (run_owns before)) fits proper.1 proper.2 h

/-- Nothing writes to a packet that a session has. -/
theorem Contents.stays {l : Label} (contents : Contents s) (ledger : Ledger s) (slots : Server.Slots p.server s.server)
    (fits : p.mMaxPayloadLength ≤ defaultSize) (owns : Owns p s l) (unshared : Unshared s l) (h : Traffic.step p s l = some s')
    (kept : Kept s n) : (s'.pool.object n).sent = (s.pool.object n).sent ∧ s'.payload n = s.payload n := by
  have used := ledger.used slots (.inr (.inr kept))
  have whole := contents.kept n kept
  have set {q : Packet} {m : Nat} (same : m = n → q.sent = (s.pool.object m).sent) :
      ((s.pool.set m q).object n).sent = (s.pool.object n).sent := by
    by_cases here : n = m
    · subst here
      rw [set_self]
      exact same rfl
    · rw [set_other _ _ here]
  have carried {q : Packet} (changes : Change (s.pool.object n) q) : q.sent = (s.pool.object n).sent := by
    cases changes with
    | same alike =>
      obtain ⟨count, rfl⟩ := alike
      rfl
    | fresh unused => omega
  cases l with
  | alloc j =>
    obtain rfl := Option.some.inj h
    obtain ⟨unused, -⟩ := ledger.sound.taken j
    refine ⟨carried (change_set (fun m _ => congrFun (take_object s.pool j) m) (.fresh unused fun _ => ⟨rfl, {}, represents_alloc _⟩) n), rfl⟩
  | free packet =>
    obtain rfl := Option.some.inj h
    refine ⟨?_, rfl⟩
    show ((s.pool.drop references packet _).object n).sent = _
    rw [drop_object]
    exact set fun _ => rfl
  | use packet call =>
    obtain ⟨⟨q, r⟩, called, rfl⟩ := Option.map_eq_some_iff.mp h
    refine ⟨set fun here => ?_, rfl⟩
    subst here
    cases reads : call.reads with
    | true =>
      obtain ⟨taken, rfl⟩ := Packet.call_reads (toOption_eq_some called) reads
      rfl
    | false =>
      rcases unshared with only | ⟨unprepared, -⟩
      · exact absurd (reads.symm.trans only) Bool.false_ne_true
      · exact absurd (unprepared.symm.trans whole.flag) Bool.false_ne_true
  | prepare key i rand =>
    obtain ⟨⟨v, t⟩, there, h⟩ := Option.bind_eq_some_iff.mp h
    obtain ⟨packet, is, h⟩ := Option.bind_eq_some_iff.mp h
    have has : packetAt s key i = some packet := (packetAt_of there).trans is
    have apart {st : Stage} (at_ : s.stage key i = st) (busy : st.busy = true) : packet ≠ n := by
      rintro rfl
      exact whole.done key i ⟨at_ ▸ busy, has⟩
    cases prepare_cases h with
    | tests => exact ⟨rfl, rfl⟩
    | marks at_ => exact ⟨set fun here => absurd here (apart at_ rfl), if_neg (Ne.symm (apart at_ rfl))⟩
    | writesHeader q at_ => exact ⟨set fun here => absurd here (apart at_ rfl), rfl⟩
    | encodes q at_ => exact ⟨set fun here => absurd here (apart at_ rfl), rfl⟩
  | server l j =>
    obtain ⟨s₁, acted, h⟩ := Option.bind_eq_some_iff.mp h
    obtain ⟨server, taken, rfl⟩ := Option.map_eq_some_iff.mp h
    have acts := act_cases acted
    obtain ⟨-, payload, -⟩ := acts.same
    exact ⟨carried (acts.objects ledger slots fits n), congrFun payload n⟩

/-- No step of `prepareSend` fails or leaves the packet. -/
theorem Contents.prepares (contents : Contents s) (ledger : Ledger s) (slots : Server.Slots p.server s.server)
    (has : packetAt s key i = some packet) (unready : s.stage key i ≠ .ready) (rand : UInt8) :
    ∃ s', Traffic.step p s (.prepare key i rand) = some s' := by
  obtain ⟨v, t, there, is⟩ := packetAt_some has
  have used := ledger.of_packetAt slots has
  obtain ⟨k, rep⟩ := contents.sized packet used
  simp only [Traffic.step, there, Option.bind_some, is]
  unfold Traffic.prepare
  simp only
  cases at_ : s.stage key i with
  | test | mark => exact ⟨_, rfl⟩
  | header =>
    obtain ⟨q, set, -⟩ := Packet.setHeaderValue_headed (read_contents rep) rand
    rw [set]
    exact ⟨_, rfl⟩
  | encode =>
    have fits := contents.steps packet key i ⟨by rw [at_]; rfl, has⟩
    rw [at_] at fits
    obtain ⟨-, rand', headed⟩ := fits
    obtain ⟨q, encoded, -⟩ := headed.encode
    rw [encoded]
    exact ⟨_, rfl⟩
  | ready => exact absurd at_ unready

/-- On its way out of a session: in `SendQueue`, in a `wsabuf`, or under a pending `WSASend`. -/
def Leaving (v : Slot) (q : Queued) : Prop :=
  q ∈ v.SendQueue ∨ (∃ t ∈ v.threads, q ∈ batchOf t.pc) ∨ ∃ io ∈ v.sendIo, q ∈ io.packets

theorem kept_of_leaving {q : Queued} (slots : Server.Slots r s.server) (inside : v ∈ s.server.mSessionList) (leaves : Leaving v q) :
    Kept s q.packet := by
  obtain ⟨key, here⟩ := List.mem_iff_getElem?.mp inside
  obtain ⟨sep, reg⟩ := slots.registration here
  refine slots.retains inside ?_
  rcases leaves with queued | ⟨t, member, batch⟩ | ⟨io, pending, reads⟩
  · exact retains_of_queue sep.identified.exclusive queued
  · exact retains_of_batch sep reg member batch
  · exact retains_of_sendIo sep reg pending reads

/-- Every packet on its way out of a session holds the frame of what was in it when `SendPacket` found
it unprepared, and no step changes a byte of it until it is out; and no `prepareSend` fails. -/
theorem leaving_packets_hold_frames (fits : p.mMaxPayloadLength ≤ defaultSize) (run : Run (traffic p) (Proper p) tr s) :
    (∀ v ∈ s.server.mSessionList, ∀ q, Leaving v q → Framed (s.pool.object q.packet) (s.payload q.packet)) ∧
      (∀ u l u' v q, (u, l) ∈ tr → step p u l = some u' → v ∈ u.server.mSessionList → Leaving v q →
        (u'.pool.object q.packet).sent = (u.pool.object q.packet).sent ∧ u'.payload q.packet = u.payload q.packet) ∧
      ∀ key i packet rand, packetAt s key i = some packet → s.stage key i ≠ .ready → ∃ s', step p s (.prepare key i rand) = some s' := by
  have contents := run_contents fits run
  have ledger := run_ledger (run_owns run)
  have slots := run_slots (run_owns run)
  refine ⟨fun v inside q leaves => ?_, fun u l u' v q taken h inside leaves => ?_, fun key i packet rand has unready => ?_⟩
  · have kept := kept_of_leaving slots inside leaves
    exact contents.framed _ (ledger.used slots (.inr (.inr kept))) (contents.kept _ kept)
  · obtain ⟨_, _, before, proper, -⟩ := run.mem taken
    have slots := run_slots (run_owns before)
    exact (run_contents fits before).stays (run_ledger (run_owns before)) slots fits proper.1 proper.2 h
      (kept_of_leaving slots inside leaves)
  · exact contents.prepares ledger slots has unready rand

theorem seven_is_framed : ∃ (tr : List (State × Label)) (s : State) (v : Slot), tr.map Prod.snd = sevenSent ∧
    v ∈ s.server.mSessionList ∧ v.sendIo = [⟨1, [⟨0, 1⟩], .pending false⟩] ∧ Framed (s.pool.object 0) [7, 0, 0, 0] := by
  have along : Along (traffic plainTraffic) (Proper plainTraffic) freshTraffic sevenSent := by decide +kernel
  obtain ⟨s, reached, run⟩ := Run.along (.init freshTraffic_started) along
  have facts : (exec (traffic plainTraffic) freshTraffic sevenSent).map (fun s => (s.payload 0,
      s.server.mSessionList.map fun v => v.sendIo)) = some ([7, 0, 0, 0], [[⟨1, [⟨0, 1⟩], .pending false⟩]]) := by decide +kernel
  rw [reached] at facts
  simp only [Option.map_some, Option.some.injEq, Prod.mk.injEq] at facts
  obtain ⟨written, sends⟩ := facts
  have pending : [⟨1, [⟨0, 1⟩], .pending false⟩] ∈ s.server.mSessionList.map fun v => v.sendIo := by
    rw [sends]
    exact .head _
  obtain ⟨v, inside, is⟩ := List.mem_map.mp pending
  have framed := (leaving_packets_hold_frames (by decide) run).1 v inside ⟨0, 1⟩
    (.inr (.inr ⟨⟨1, [⟨0, 1⟩], .pending false⟩, by rw [is]; exact .head _, .head _⟩))
  rw [written] at framed
  exact ⟨_, s, v, trace_labels reached, inside, is, framed⟩

/-! ### Two calls with one new packet -/

/-- The second call finds the flag that the first one has just set, and sends the packet before its
header is written. -/
def sentUnencoded : List Label := [.alloc 0, .use 0 (.shiftLeft (.unsignedInt 7))] ++
  serverSteps (Server.firstClient ++ .call (.sendPacket (some 0)) 1 :: .call (.sendPacket (some 0)) 1 ::
    (List.replicate 4 (.at 0 (.thread 1 .go)) ++ List.replicate 4 (.at 0 (.thread 2 .go)))) ++
  [.prepare 0 1 3, .prepare 0 1 3, .prepare 0 2 3] ++
  serverSteps (List.replicate 9 (.at 0 (.thread 2 .go)) ++ [.at 0 (.thread 2 .pending)])

theorem wire_code (rand : UInt8) (payload : List UInt8) : (wire rand payload).head? = some NetworkHeader.code := rfl

theorem shared_packet_leaves_unframed : ∃ (tr : List (State × Label)) (s : State) (v : Slot), Run (traffic plainTraffic) (Owns plainTraffic) tr s ∧
    v ∈ s.server.mSessionList ∧ v.sendIo = [⟨1, [⟨0, 1⟩], .pending false⟩] ∧ ∀ payload, ¬ Framed (s.pool.object 0) payload := by
  have along : Along (traffic plainTraffic) (Owns plainTraffic) freshTraffic sentUnencoded := by decide +kernel
  obtain ⟨s, reached, run⟩ := Run.along (.init freshTraffic_started) along
  have facts : (exec (traffic plainTraffic) freshTraffic sentUnencoded).map (fun s => ((s.pool.object 0).sent.toOption,
      s.server.mSessionList.map fun v => v.sendIo)) = some (some [0, 0, 0, 0, 0, 7, 0, 0, 0], [[⟨1, [⟨0, 1⟩], .pending false⟩]]) := by
    decide +kernel
  rw [reached] at facts
  simp only [Option.map_some, Option.some.injEq, Prod.mk.injEq] at facts
  obtain ⟨bytes, sends⟩ := facts
  have pending : [⟨1, [⟨0, 1⟩], .pending false⟩] ∈ s.server.mSessionList.map fun v => v.sendIo := by
    rw [sends]
    exact .head _
  obtain ⟨v, inside, is⟩ := List.mem_map.mp pending
  refine ⟨_, s, v, run, inside, is, ?_⟩
  rintro payload ⟨-, rand, sent⟩
  rw [sent] at bytes
  have first := wire_code rand payload
  rw [Option.some.inj bytes] at first
  exact absurd first (by decide)

end WanNet.Traffic
