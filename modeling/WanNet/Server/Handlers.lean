import WanNet.Server.References
import WanNet.Session.Stream

/-!
The handler calls of a whole server: for every session ID they keep to the protocol, and packets are
delivered in the order in which their bytes came.
-/

namespace WanNet.Server
open Transition Session Framing

variable {p : Params} {s s' : NetServer} {key : Nat} {v v' w : Slot} {n : Nat}

/-- What a step is to the session with which ID. -/
def happening (s : NetServer) : Label → Option (Nat × Happening)
  | .at key l => (s.mSessionList[key]?).bind fun v => Session.happening v l
  | _ => none

def history (sessionID : Nat) (tr : List (NetServer × Label)) : List Happening :=
  tr.filterMap fun x => ofSession sessionID (happening x.1 x.2)

/-- Calls go to slots that have been initialised, with whatever ID, and fewer than 2^32 sessions are accepted. -/
def Opening (s : NetServer) : Label → Prop
  | .accept _ => s.mSessionAcceptedCount + 1 < 2 ^ 32
  | .call _ sessionID => ∀ key ∈ findSessionOrNull s sessionID, ∀ v ∈ s.mSessionList[key]?, 0 < v.inits
  | .at _ _ => True

instance : Decidable (Opening s l) :=
  match l with
  | .accept _ => inferInstanceAs (Decidable (_ < _))
  | .call _ sessionID => inferInstanceAs (Decidable (∀ key ∈ findSessionOrNull s sessionID, _))
  | .at _ _ => .isTrue trivial

theorem history_append (sessionID : Nat) (tr : List (NetServer × Label)) (x : NetServer × Label) :
    history sessionID (tr ++ [x]) = history sessionID tr ++ (ofSession sessionID (happening x.1 x.2)).toList := by
  unfold history
  rw [List.filterMap_append]
  cases is : ofSession sessionID (happening x.1 x.2) <;> simp [is]

/-! ### The slots' runs -/

/-- Every slot goes through a run of its own, in which its sessions have their whole history. -/
structure Histories (p : Params) (tr : List (NetServer × Label)) (s : NetServer) : Prop where
  range : s.mSessionAcceptedCount < 2 ^ 32
  accepted : ∀ (key : Nat) (v : Slot), s.mSessionList[key]? = some v → v.accepted ≤ s.mSessionAcceptedCount
  slots : ∀ (key : Nat) (v : Slot), s.mSessionList[key]? = some v →
    ∃ tr', Run (slot (p.config key)) (fun v l => Bounded (p.config key) v l ∧ Numbered v l) tr' v ∧
      ∀ n < 2 ^ 32, history (newSessionID (p.config key) n) tr = Session.history (newSessionID (p.config key) n) tr'
  ids : ∀ sessionID, history sessionID tr ≠ [] → ∃ key n, key < s.mMaxSessionCount ∧ n < 2 ^ 32 ∧
    sessionID = newSessionID (p.config key) n

theorem Histories.init (started : Started s) : Histories p [] s := by
  obtain ⟨count, -⟩ := started.counters
  have fresh {key : Nat} {v : Slot} (here : s.mSessionList[key]? = some v) : v.Fresh :=
    (started.slots v (List.mem_of_getElem? here)).1
  refine ⟨by omega, fun key v here => ?_, fun key v here => ⟨[], .init (fresh here), fun n _ => rfl⟩, fun _ some => absurd rfl some⟩
  have none := (fresh here).unused.2.1
  omega

theorem Histories.still (histories : Histories p tr s) (same : s'.mSessionList = s.mSessionList)
    (count : s'.mSessionAcceptedCount = s.mSessionAcceptedCount) (quiet : happening s l = none) : Histories p (tr ++ [(s, l)]) s' := by
  have still (sessionID : Nat) : history sessionID (tr ++ [(s, l)]) = history sessionID tr := by
    rw [history_append, quiet]
    exact List.append_nil _
  refine ⟨count ▸ histories.range, ?_, ?_, ?_⟩
  · rw [same, count]
    exact histories.accepted
  · simp only [same, still]
    exact histories.slots
  · simp only [NetServer.mMaxSessionCount, same, still]
    exact histories.ids

theorem key_of_id {key' : Nat} (same : newSessionID (p.config key) m = newSessionID (p.config key') n) : key = key' := by
  rw [newSessionID_eq, newSessionID_eq] at same
  simp only [Params.config] at same
  omega

theorem Histories.put (histories : Histories p tr s) (here : s.mSessionList[key]? = some v) {l' : Session.Label}
    (bounded : Bounded (p.config key) v l') (numbered : Numbered v l') (taken : Session.step (p.config key) v l' = some v')
    (list : s'.mSessionList = s.mSessionList.set key v') (count : s.mSessionAcceptedCount ≤ s'.mSessionAcceptedCount)
    (range : s'.mSessionAcceptedCount < 2 ^ 32) (accepted : v'.accepted ≤ s'.mSessionAcceptedCount)
    (happens : happening s l = Session.happening v l') : Histories p (tr ++ [(s, l)]) s' := by
  obtain ⟨tr', run, same⟩ := histories.slots key v here
  obtain ⟨counts, opened⟩ := Run.opened run
  refine ⟨range, fun key' w at_key => ?_, fun key' w at_key => ?_, fun sessionID some => ?_⟩
  · rw [list] at at_key
    rcases at_put here at_key with ⟨rfl, rfl⟩ | ⟨-, old⟩
    · exact accepted
    · exact Nat.le_trans (histories.accepted key' w old) count
  · rw [list] at at_key
    rcases at_put here at_key with ⟨rfl, rfl⟩ | ⟨apart, old⟩
    · refine ⟨_, run.step ⟨bounded, numbered⟩ taken, fun n small => ?_⟩
      rw [history_append, Session.history_append, happens, same n small]
    · obtain ⟨tr₁, run₁, same₁⟩ := histories.slots key' w old
      refine ⟨tr₁, run₁, fun n small => ?_⟩
      rw [history_append, happens, ← same₁ n small]
      cases happened : Session.happening v l' with
      | none => exact List.append_nil _
      | some e =>
        obtain ⟨m, -, is⟩ := opened.happening_id counts taken happened
        rw [ofSession_other fun same => apart (key_of_id (is.symm.trans same)).symm]
        exact List.append_nil _
  · have length : s'.mMaxSessionCount = s.mMaxSessionCount := by simp [NetServer.mMaxSessionCount, list]
    have lt : key < s.mMaxSessionCount := (List.getElem?_eq_some_iff.mp here).1
    rw [history_append, happens] at some
    rw [length]
    by_cases before : history sessionID tr = []
    · rw [before, List.nil_append] at some
      cases happened : Session.happening v l' with
      | none =>
        rw [happened] at some
        exact absurd rfl some
      | some e =>
        obtain ⟨m, small, is⟩ := opened.happening_id counts taken happened
        by_cases this : e.1 = sessionID
        · exact ⟨key, m, lt, small, this.symm.trans is⟩
        · rw [happened, ofSession_other this] at some
          exact absurd rfl some
    · exact histories.ids sessionID before

theorem Histories.step (histories : Histories p tr s) (few : FewEach p s l) (opening : Opening s l) (h : step p s l = some s') :
    Histories p (tr ++ [(s, l)]) s' := by
  have fewer (key : Nat) (v v' : Slot) (l' : Session.Label) (here : s.mSessionList[key]? = some v)
      (taken : Session.step (p.config key) v l' = some v') (list : s'.mSessionList = s.mSessionList.set key v') :
      Few (p.config key) v l' := by
    intro v'' is
    obtain rfl := Option.some.inj (taken.symm.trans is)
    refine few s' h v' ?_
    rw [list]
    exact List.mem_set (List.getElem?_eq_some_iff.mp here).1 _
  cases l with
  | accept address =>
    have counted : (s.mSessionAcceptedCount + 1) % 2 ^ 64 = s.mSessionAcceptedCount + 1 := by
      have opening : s.mSessionAcceptedCount + 1 < 2 ^ 32 := opening
      omega
    obtain ⟨-, ⟨-, rfl⟩ | ⟨key, rest, v, v', stack, here, taken, is⟩⟩ := step_accept h
    · exact histories.still rfl rfl rfl
    · rw [counted] at taken is
      have before := histories.accepted key v here
      have list : s'.mSessionList = s.mSessionList.set key v' := by rw [is]; rfl
      have count : s'.mSessionAcceptedCount = s.mSessionAcceptedCount + 1 := by rw [is]
      have numbered : Numbered v (.accept (s.mSessionAcceptedCount + 1) (s.clients + 1) address) := ⟨by omega, opening⟩
      refine histories.put here ⟨fewer key v v' _ here taken list, trivial⟩ numbered taken list (by omega) ?_ ?_ rfl
      · rw [count]
        exact opening
      · rw [count, (Session.step_accept taken).2]
  | call request sessionID =>
    obtain ⟨rfl, -⟩ | ⟨call, key, v, v', -, found, here, taken, rfl⟩ := step_call h
    · exact histories.still rfl rfl rfl
    · have used : Used v (.call call sessionID) := .inl (opening key found v here)
      have accepted : v'.accepted = v.accepted := by
        obtain rfl := Option.some.inj taken
        rfl
      have before := histories.accepted key v here
      exact histories.put here ⟨fewer key v v' _ here taken rfl, used⟩ trivial taken rfl (Nat.le_refl _) histories.range
        (accepted ▸ before) rfl
  | «at» key l =>
    have noaccept (count sock address) : l ≠ .accept count sock address := by
      rintro rfl
      cases h
    obtain ⟨v, v', w, here, taken, rfl, how⟩ := step_at h
    have used : Used v l := by
      cases l <;> trivial
    have numbered : Numbered v l := by
      cases l <;> trivial
    have before := histories.accepted key v here
    have happens : happening s (.at key l) = Session.happening v l := by simp [happening, here]
    obtain ⟨rfl, outside⟩ | ⟨i, ans, t, rfl, at_i, rfl⟩ := how
    · obtain ⟨⟨accepted, -⟩, -⟩ := step_elsewhere taken outside noaccept
      exact histories.put here ⟨fewer key v v' _ here taken rfl, used⟩ numbered taken rfl (Nat.le_refl _) histories.range
        (accepted ▸ before) happens
    · obtain ⟨list, count, -⟩ := effect_same s v t.pc
      obtain ⟨t', v₁, pc', -, advanced, is⟩ := step_thread taken
      have accepted : v'.accepted = v.accepted := by
        rw [is]
        exact (next_accepted advanced).1
      have set : ((effect s v t.pc).put key v').mSessionList = s.mSessionList.set key v' := by
        show (effect s v t.pc).mSessionList.set key v' = _
        rw [list]
      have same : ((effect s v t.pc).put key v').mSessionAcceptedCount = s.mSessionAcceptedCount := count
      refine histories.put here ⟨fewer key v v' _ here taken set, used⟩ numbered taken set (Nat.le_of_eq same.symm) ?_ ?_ happens
      · rw [same]
        exact histories.range
      · rw [same, accepted]
        exact before

theorem run_histories (run : Run (server p) (fun s l => FewEach p s l ∧ Opening s l) tr s) : Histories p tr s :=
  run.invariant (I := Histories p) (fun _ => Histories.init) fun _ _ _ _ _ histories ⟨few, opening⟩ h =>
    histories.step few opening h

/-- For every session ID, in every run: the handlers are called in the order of the protocol, one at a
time, and the packets are delivered in the order in which their bytes came. -/
theorem handlers_keep_order (run : Run (server p) (fun s l => FewEach p s l ∧ Opening s l) tr s) (sessionID : Nat) :
    (∃ phase, follows (history sessionID tr) = some phase) ∧
      InOrder (packets (history sessionID tr)) (received (history sessionID tr)) := by
  have histories := run_histories run
  by_cases nothing : history sessionID tr = []
  · rw [nothing]
    exact ⟨⟨.unborn, rfl⟩, trivial⟩
  · obtain ⟨key, n, lt, small, rfl⟩ := histories.ids sessionID nothing
    obtain ⟨tr', slot_run, same⟩ := histories.slots key _ (List.getElem?_eq_getElem lt)
    rw [same n small]
    exact ⟨⟨_, Run.follows slot_run small⟩, (Run.streaming slot_run).all n small⟩

def onePacket : List Label := firstClient ++ List.replicate 4 (Label.at 0 (.thread 0 .go)) ++ .at 0 (.thread 0 .pending) ::
  List.replicate 3 (Label.at 0 (.thread 0 .go)) ++ [.at 0 (.recvCompletes 0 [0x77, 0, 0, 0, 0]), .at 0 (.workRecv 0)] ++
  List.replicate 9 (Label.at 0 (.thread 1 .go)) ++ .at 0 (.thread 1 .pending) :: List.replicate 3 (Label.at 0 (.thread 1 .go)) ++
  [.at 0 (.recvFails 0), .at 0 (.workRecv 0)] ++ List.replicate 7 (Label.at 0 (.thread 2 .go)) ++
  [.at 0 (.workRelease 0), .at 0 (.thread 3 .go)]

theorem one_packet_in_order : ∃ tr : List (NetServer × Label), tr.map Prod.snd = onePacket ∧
    history 1 tr = [.acceptBegins, .acceptReturns, .received [0x77, 0, 0, 0, 0], .receiveBegins [0x77, 0, 0, 0, 0],
      .receiveReturns, .releaseBegins] ∧
    (∃ phase, follows (history 1 tr) = some phase) ∧ InOrder (packets (history 1 tr)) (received (history 1 tr)) := by
  have along : Along (server plainServer) (fun s l => FewEach plainServer s l ∧ Opening s l) freshServer onePacket := by
    decide +kernel
  obtain ⟨s, reached, run⟩ := Run.along (.init freshServer_started) along
  rw [List.nil_append] at run
  have calls : history 1 (trace (server plainServer) freshServer onePacket) = [.acceptBegins, .acceptReturns,
      .received [0x77, 0, 0, 0, 0], .receiveBegins [0x77, 0, 0, 0, 0], .receiveReturns, .releaseBegins] := by decide +kernel
  exact ⟨_, trace_labels reached, calls, handlers_keep_order run 1⟩

/-! ### Calls out of order -/

theorem follows_after_release (es : List Happening) (packet : List UInt8) :
    follows (es ++ [.releaseBegins] ++ [.receiveBegins packet]) = none := by
  rw [follows_append_one, follows_append_one]
  cases follows es with
  | none => rfl
  | some phase => cases phase <;> rfl

/-- A worker before `OnReceive`, and a caller in its guard. -/
def parkedReceiver : List Session.Label := acceptRound 1 1 9 0 ++ .thread 0 .pending :: List.replicate 3 (Session.Label.thread 0 .go) ++
  [.recvCompletes 0 [0x77, 0, 0, 0, 0], .workRecv 0] ++ List.replicate 3 (Session.Label.thread 1 .go) ++
  [.call .getSessionAddress 1, .thread 2 .go]

theorem parkedReceiver_end (reached : exec onlySlot unusedSlot parkedReceiver = some v) :
    (v.IoCount = 2 ∧ v.ID = 1 ∧ v.SessionListKey = 0 ∧ v.posted = []) ∧ (v.issued = [1] ∧ v.accepted = 1) ∧
      (v.bDisconnected = false ∧ v.bDisconnectRegistered = false) ∧
      ∃ frame, v.threads = [⟨.accept 1 1 9, .finished⟩, ⟨.worker, .onReceive frame⟩,
        ⟨.api .getSessionAddress 1, .callTestDisconnected⟩] := by
  have members : (exec onlySlot unusedSlot parkedReceiver).map (fun v => ((v.IoCount, v.ID, v.SessionListKey, v.posted),
      (v.issued, v.accepted), (v.bDisconnected, v.bDisconnectRegistered))) =
      some ((2, 1, 0, []), ([1], 1), (false, false)) := by decide +kernel
  have threads : (exec onlySlot unusedSlot parkedReceiver).map Slot.threads = some [⟨.accept 1 1 9, .finished⟩,
      ⟨.worker, .onReceive [⟨0x77, 1⟩, ⟨0, 1⟩, ⟨0, 1⟩, ⟨0, 1⟩, ⟨0, 1⟩]⟩, ⟨.api .getSessionAddress 1, .callTestDisconnected⟩] := by
    decide +kernel
  rw [reached] at members threads
  simp only [Option.map_some, Option.some.injEq, Prod.mk.injEq] at members threads
  exact ⟨members.1, members.2.1, members.2.2, _, threads⟩

/-- The slot is released under the worker, and its notice is posted. -/
theorem released_under_receiver : ∃ tr v frame rest, Run onlySlot Sole tr v ∧ v.posted = [1] ∧ v.ID = 1 ∧
    v.threads = ⟨.accept 1 1 9, .finished⟩ :: ⟨.worker, .onReceive frame⟩ :: rest := by
  have along : Along onlySlot Sole unusedSlot parkedReceiver := by decide +kernel
  obtain ⟨v, reached, run⟩ := Run.along (.init rfl) along
  obtain ⟨⟨count, id, key, posted⟩, ⟨issued, accepted⟩, unclosed, frame, threads⟩ := parkedReceiver_end reached
  have known : Knows plain v v.accepted 1 := by
    rw [accepted]
    exact ⟨1, by simp [issued], rfl, by decide⟩
  obtain ⟨tr, pcs, run⟩ := crowd_releases (S := onlySlot) [_, _] rfl
    (fun _ ⟨n, issued, is, _⟩ => ⟨n, issued, is⟩) (fun _ _ => trivial) run known (by omega) id key unclosed threads
  exact ⟨_, _, frame, _, run, by simp [posted], id, rfl⟩

/-- Once `IoCount` has wrapped around, a session's `OnReceive` is called after its `OnRelease`. -/
theorem crowded_server_receives_late : ∃ (tr : List (NetServer × Label)) (s : NetServer),
    Run (server plainServer) (Obtained plainServer) tr s ∧ follows (history 1 tr) = none := by
  obtain ⟨_, v, frame, rest, run, posted, id, threads⟩ := released_under_receiver
  obtain ⟨tr, s, run, single⟩ := Run.served run
  have turn : Session.step plain v (.workRelease 0) = some ({ v with posted := [] }.spawn .worker (.onRelease 1)) := by
    simp [Session.step, posted]
  obtain ⟨s₁, taken, single₁⟩ : ∃ s₁, step plainServer s (.at 0 (.workRelease 0)) = some s₁ ∧
      Single (Slot.spawn { v with posted := [] } .worker (.onRelease 1)) s₁ := ⟨_, single.elsewhere turn (by simp) (by simp)⟩
  have releases : Session.step plain ({ v with posted := [] }.spawn .worker (.onRelease 1)) (.thread v.threads.length .go) =
      some { v with posted := [], threads := v.threads ++ [⟨.worker, .finished⟩] } := by
    simp [Session.step, Slot.spawn, next]
  obtain ⟨s₂, released, single₂⟩ := single₁.thread releases
  have receives : Session.step plain { v with posted := [], threads := v.threads ++ [⟨.worker, .finished⟩] } (.thread 1 .go) =
      some { v with posted := [], threads := List.set (v.threads ++ [⟨.worker, .finished⟩]) 1 ⟨.worker, .onReceiveReturn⟩ } := by
    simp [Session.step, threads, next]
  obtain ⟨s₃, received, -⟩ := single₂.thread receives
  have run : Run (server plainServer) (Obtained plainServer) (tr ++ [(s, .at 0 (.workRelease 0))] ++
      [(s₁, .at 0 (.thread v.threads.length .go))] ++ [(s₂, .at 0 (.thread 1 .go))]) s₃ := by
    have free (u : NetServer) (i : Nat) : Obtained plainServer u (.at 0 (.thread i .go)) := trivial
    have turned : Obtained plainServer s (.at 0 (.workRelease 0)) := trivial
    exact ((run.step turned taken).step (free s₁ _) released).step (free s₂ 1) received
  refine ⟨_, s₃, run, ?_⟩
  have calls : ofSession 1 (happening s₁ (.at 0 (.thread v.threads.length .go))) = some .releaseBegins := by
    simp [happening, single₁.here, Session.happening, Slot.spawn, Pc.happening, ofSession]
  have late : ofSession 1 (happening s₂ (.at 0 (.thread 1 .go))) = some (.receiveBegins (frame.map RecvByte.byte)) := by
    simp [happening, single₂.here, Session.happening, threads, Pc.happening, ofSession, id]
  rw [history_append, history_append, calls, late]
  exact follows_after_release _ _

/-- A call with an ID of its own making comes before the first client, and releases the slot during `Init`. -/
def strayCall : List Label := .call .getSessionAddress 5 :: List.replicate 3 (Label.at 0 (.thread 0 .go)) ++
  .accept 9 :: List.replicate 8 (Label.at 0 (.thread 1 .go)) ++ List.replicate 5 (Label.at 0 (.thread 0 .go)) ++
  [.at 0 (.workRelease 0), .at 0 (.thread 2 .go)]

/-- A session's `OnRelease` is called before its `OnAccept`. -/
theorem stray_call_releases_early : ∃ (tr : List (NetServer × Label)) (s : NetServer),
    Run (server plainServer) (FewEach plainServer) tr s ∧ s.mSessionAcceptedCount = 1 ∧ follows (history 1 tr) = none := by
  have along : Along (server plainServer) (FewEach plainServer) freshServer strayCall := by decide +kernel
  obtain ⟨s, reached, run⟩ := Run.along (.init freshServer_started) along
  rw [List.nil_append] at run
  have count : (exec (server plainServer) freshServer strayCall).map NetServer.mSessionAcceptedCount = some 1 := by decide +kernel
  rw [reached] at count
  exact ⟨_, s, run, Option.some.inj count, by decide +kernel⟩

/-- The handlers are not always called in order: not when `IoCount` wraps around, and not when a call
uses a slot that has had no session. -/
theorem handlers_out_of_order :
    (∃ (tr : List (NetServer × Label)) (s : NetServer), Run (server plainServer) (Obtained plainServer) tr s ∧
      follows (history 1 tr) = none) ∧
    ∃ (tr : List (NetServer × Label)) (s : NetServer), Run (server plainServer) (FewEach plainServer) tr s ∧
      s.mSessionAcceptedCount = 1 ∧ follows (history 1 tr) = none :=
  ⟨crowded_server_receives_late, stray_call_releases_early⟩

end WanNet.Server
