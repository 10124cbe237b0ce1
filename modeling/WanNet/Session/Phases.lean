import WanNet.Session.Handlers

/-!
The handler calls of every session keep to one order: `OnAccept`, then `OnReceive` one call after the
other, then `OnRelease`. How far a session has come can be read off its slot at any time.
-/

namespace WanNet.Session
open Transition Threads ReleaseCount

variable {cfg : Config} {s s' u : Slot} {role : Role} {ans : Answer} {pc pc' : Pc} {t : Thread} {i n : Nat} {l : Label}

/-! ### How far each session has come -/

def inAccept : Pc → Nat
  | .onAcceptReturn => 1
  | _ => 0

def inReceive : Pc → Nat
  | .onReceiveReturn => 1
  | _ => 0

/-- The phase of the `n`-th accepted session, read off the slot. -/
def phase (cfg : Config) (s : Slot) (n : Nat) : Phase :=
  if n ∉ s.issued then .unborn
  else if notices cfg s n = 0 then .released
  else if n = s.accepted ∧ 0 < weigh inAccept s then .accepting
  else if n = s.accepted ∧ 0 < weigh inReceive s then .receiving
  else .idle

/-- What happened, if anything did, leads from one phase to the other. -/
def Phase.Leads (p : Phase) (e : Option Happening) (p' : Phase) : Prop :=
  match e with
  | none => p' = p
  | some e => p.after e = some p'

theorem inAccept_le (pc : Pc) : inAccept pc ≤ receiving pc := by
  cases pc <;> simp [inAccept, receiving]

theorem inReceive_le (pc : Pc) : inReceive pc ≤ receiving pc := by
  cases pc <;> simp [inReceive, receiving]

theorem settled_of_handler (runs : 0 < inAccept pc + inReceive pc) : 0 < settled (stage pc) := by
  cases pc <;> simp [inAccept, inReceive, stage] at *

theorem phase_same (issued : n ∈ s'.issued ↔ n ∈ s.issued) (noticed : n ∈ s.issued → notices cfg s' n = notices cfg s n)
    (handlers : n ∈ s.issued → (n = s'.accepted ∧ 0 < weigh inAccept s' ↔ n = s.accepted ∧ 0 < weigh inAccept s) ∧
      (n = s'.accepted ∧ 0 < weigh inReceive s' ↔ n = s.accepted ∧ 0 < weigh inReceive s)) :
    phase cfg s' n = phase cfg s n := by
  unfold phase
  by_cases held : n ∈ s.issued
  · obtain ⟨accepts, receives⟩ := handlers held
    simp only [issued, noticed held, accepts, receives]
  · rw [if_pos held, if_pos fun new => held (issued.mp new)]

/-- A session that nobody may receive for any more, and one that has not been accepted last, has no handler running. -/
theorem phase_idle (issued : n ∈ s.issued) (noticed : 0 < notices cfg s n)
    (silent : n = s.accepted → weigh inAccept s = 0 ∧ weigh inReceive s = 0) : phase cfg s n = .idle := by
  unfold phase
  rw [if_neg (not_not.mpr issued), if_neg (Nat.ne_of_gt noticed), if_neg, if_neg]
  · rintro ⟨same, runs⟩
    have := silent same
    omega
  · rintro ⟨same, runs⟩
    have := silent same
    omega

theorem Opened.current (opened : Opened cfg s) (owes : owed s = 1) (uninit : weigh initialising s = 0) :
    s.accepted ∈ s.issued ∧ 0 < notices cfg s s.accepted := by
  refine ⟨opened.announced uninit (by omega), ?_⟩
  unfold notices
  rw [if_pos rfl]
  omega

theorem Opened.receives (opened : Opened cfg s) (counts : Counts cfg s) (at_i : s.threads[i]? = some t)
    (receives : receiving t.pc = 1) (settles : 0 < settled (stage t.pc)) (uninit : initialising t.pc = 0) :
    s.ID = newSessionID cfg s.accepted ∧ s.accepted ∈ s.issued ∧ 0 < notices cfg s s.accepted ∧
      weigh inAccept s = inAccept t.pc ∧ weigh inReceive s = inReceive t.pc := by
  obtain ⟨owes, id⟩ := opened.works counts (List.mem_of_getElem? at_i) settles
  have nobody := (opened.alone at_i receives initialising_le_receiving).1
  obtain ⟨issued, noticed⟩ := opened.current owes (by omega)
  exact ⟨id, issued, noticed, (opened.alone at_i receives inAccept_le).1, (opened.alone at_i receives inReceive_le).1⟩

/-- The phase of the session that a receiver works for. -/
def Pc.phase : Pc → Phase
  | .onAcceptReturn => .accepting
  | .onReceiveReturn => .receiving
  | _ => .idle

theorem phase_current (issued : s.accepted ∈ s.issued) (noticed : 0 < notices cfg s s.accepted)
    (accepts : weigh inAccept s = inAccept pc) (receives : weigh inReceive s = inReceive pc) : phase cfg s s.accepted = pc.phase := by
  unfold phase
  rw [if_neg (not_not.mpr issued), if_neg (Nat.ne_of_gt noticed), accepts, receives]
  cases pc <;> simp [inAccept, inReceive, Pc.phase]

/-- A step that no handler takes part in leaves every session where it is. -/
theorem Opened.leads_quiet (opened : Opened cfg s) (counts : Counts cfg s) (at_i : s.threads[i]? = some t)
    (taken : next cfg s t.role ans t.pc = some (u, pc')) (few : references (s.moved u i t pc') < 2 ^ 31 - 1)
    (enters : t.pc ≠ .onAccept) (handles : inAccept t.pc + inReceive t.pc = 0) (handles' : inAccept pc' + inReceive pc' = 0)
    (released : releasingID (newSessionID cfg n) t.pc = 0) : phase cfg (s.moved u i t pc') n = phase cfg s n := by
  have accepted : u.accepted = s.accepted := (next_accepted taken).1
  have issued : u.issued = s.issued := by
    rcases next_announces taken with ⟨here, -⟩ | ⟨-, same, -⟩
    · exact absurd here enters
    · exact same
  have accepts := weigh_moved inAccept u pc' at_i
  have receives := weigh_moved inReceive u pc' at_i
  refine phase_same (by show n ∈ u.issued ↔ _; rw [issued]) (fun held => ?_) fun _ => ?_
  · have moved := opened.notices_moved counts at_i taken few held
    omega
  · show (n = u.accepted ∧ _ ↔ _) ∧ (n = u.accepted ∧ _ ↔ _)
    rw [accepted, show weigh inAccept (s.moved u i t pc') = weigh inAccept s by omega,
      show weigh inReceive (s.moved u i t pc') = weigh inReceive s by omega]
    exact ⟨Iff.rfl, Iff.rfl⟩

/-- Between `OnAccept` and `OnRelease`, what happens to a session is the work of its receiver. -/
theorem next_handles (h : next cfg s role ans pc = some (s', pc')) (happens : pc.happening s ans = some (sessionID, e)) :
    pc = .onAccept ∨ (∃ released, pc = .onRelease released) ∨
      sessionID = s.ID ∧ receiving pc = 1 ∧ 0 < settled (stage pc) ∧ initialising pc = 0 ∧ pc.phase.after e = some pc'.phase := by
  cases next_moves h with
  | onAccept => exact .inl rfl
  | onRelease released => exact .inr (.inl ⟨released, rfl⟩)
  | wsaRecvAtOnce buf len data answer =>
    subst answer
    cases happens
    exact .inr (.inr ⟨rfl, rfl, Nat.one_pos, rfl, rfl⟩)
  | wsaRecv buf len answer | wsaRecvFails buf len answer =>
    subst answer
    cases happens
  | onAcceptReturn | onReceive | onReceiveReturn =>
    cases happens
    exact .inr (.inr ⟨rfl, rfl, Nat.one_pos, rfl, rfl⟩)
  | _ => cases happens

theorem ofSession_self (sessionID : Nat) (e : Happening) : ofSession sessionID (some (sessionID, e)) = some e := by
  simp [ofSession]

theorem ofSession_other (apart : other ≠ sessionID) (e : Happening) : ofSession sessionID (some (other, e)) = none := by
  simp [ofSession, apart]

theorem Opened.leads_handler (opened : Opened cfg s) (counts : Counts cfg s) (at_i : s.threads[i]? = some t)
    (taken : next cfg s t.role ans t.pc = some (u, pc')) (few : references (s.moved u i t pc') < 2 ^ 31 - 1)
    (small : n < 2 ^ 32) (receives : receiving t.pc = 1) (settles : 0 < settled (stage t.pc)) (uninit : initialising t.pc = 0)
    (happens : t.pc.happening s ans = some (s.ID, e)) (after : t.pc.phase.after e = some pc'.phase) :
    (phase cfg s n).Leads (ofSession (newSessionID cfg n) (t.pc.happening s ans)) (phase cfg (s.moved u i t pc') n) := by
  obtain ⟨id, issued, noticed, accepts, handles⟩ := opened.receives counts at_i receives settles uninit
  have enters : t.pc ≠ .onAccept := by
    intro here
    rw [here] at uninit
    cases uninit
  have releases (sessionID : Nat) : releasingID sessionID t.pc = 0 := by
    refine releasingID_other (fun released here => ?_) sessionID
    rw [here] at receives
    cases receives
  have accepted : u.accepted = s.accepted := (next_accepted taken).1
  have issued' : u.issued = s.issued := by
    rcases next_announces taken with ⟨here, -⟩ | ⟨-, same, -⟩
    · exact absurd here enters
    · exact same
  have moved (held : n ∈ s.issued) : notices cfg (s.moved u i t pc') n = notices cfg s n := by
    have moved := opened.notices_moved counts at_i taken few held
    have quiet := releases (newSessionID cfg n)
    omega
  have accepts' := weigh_moved inAccept u pc' at_i
  have handles' := weigh_moved inReceive u pc' at_i
  rw [happens, id]
  by_cases current : n = s.accepted
  · subst current
    rw [ofSession_self, phase_current issued noticed accepts handles]
    have there : phase cfg (s.moved u i t pc') s.accepted = pc'.phase := by
      rw [← accepted]
      refine phase_current ?_ ?_ (by omega) (by omega)
      · show u.accepted ∈ u.issued
        rw [accepted, issued']
        exact issued
      · show 0 < notices cfg _ u.accepted
        rw [accepted, moved issued]
        exact noticed
    rw [there]
    exact after
  · rw [ofSession_other fun same => current ((newSessionID_eq_iff opened.range small).mp same).symm]
    refine phase_same (by show n ∈ u.issued ↔ _; rw [issued']) moved fun _ => ?_
    show (n = u.accepted ∧ _ ↔ _) ∧ (n = u.accepted ∧ _ ↔ _)
    rw [accepted]
    simp [current]

/-- `OnAccept` announces the session that was accepted last. -/
theorem Opened.leads_onAccept (opened : Opened cfg s) (counts : Counts cfg s) (at_i : s.threads[i]? = some t)
    (taken : next cfg s t.role ans t.pc = some (u, pc')) (few : references (s.moved u i t pc') < 2 ^ 31 - 1)
    (small : n < 2 ^ 32) (here : t.pc = .onAccept) :
    (phase cfg s n).Leads (ofSession (newSessionID cfg n) (t.pc.happening s ans)) (phase cfg (s.moved u i t pc') n) := by
  have member := List.mem_of_getElem? at_i
  have settles : 0 < settled (stage t.pc) := by
    rw [here]
    exact Nat.one_pos
  obtain ⟨owes, id⟩ := opened.works counts member settles
  have fresh := opened.unissued (by
    have own := le_weigh (w := initialising) member
    rwa [here] at own)
  have owes' : owed (s.moved u i t pc') = owed s := by
    rcases owed_move counts at_i taken few with ⟨same, -⟩ | ⟨clear, -⟩ | ⟨⟨again, post⟩, -⟩
    · exact same
    · rw [here] at clear
      cases clear
    · rw [here] at post
      cases post
  have happens : t.pc.happening s ans = some (s.ID, .acceptBegins) := by
    rw [here]
    rfl
  have accepts := weigh_moved inAccept u pc' at_i
  have accepted : u.accepted = s.accepted := (next_accepted taken).1
  obtain ⟨there, issued⟩ : pc' = .onAcceptReturn ∧ u.issued = s.accepted :: s.issued := by
    rcases next_announces taken with ⟨-, there, is⟩ | ⟨elsewhere, -⟩
    · exact ⟨there, by rw [is]⟩
    · exact absurd here elsewhere
  rw [happens, id]
  by_cases current : n = s.accepted
  · subst current
    have unborn : phase cfg s s.accepted = .unborn := if_pos fresh
    have accepting : phase cfg (s.moved u i t pc') s.accepted = .accepting := by
      have enters : inAccept pc' = 1 ∧ inAccept t.pc = 0 := by
        rw [here, there]
        exact ⟨rfl, rfl⟩
      unfold phase
      rw [if_neg, if_neg, if_pos ⟨accepted.symm, by omega⟩]
      · unfold notices
        show ¬ (_ + (if s.accepted = u.accepted then _ else 0) = 0)
        rw [if_pos accepted.symm]
        omega
      · show ¬ s.accepted ∉ u.issued
        rw [issued]
        exact not_not.mpr (.head _)
    rw [ofSession_self, unborn, accepting]
    rfl
  · rw [ofSession_other fun same => current ((newSessionID_eq_iff opened.range small).mp same).symm]
    have elsewhere : n ∈ u.issued ↔ n ∈ s.issued := by
      rw [issued]
      simp [current]
    refine phase_same elsewhere (fun held => ?_) fun _ => ?_
    · have moved := opened.notices_moved counts at_i taken few held
      have quiet : releasingID (newSessionID cfg n) t.pc = 0 := by
        rw [here]
        rfl
      omega
    · show (n = u.accepted ∧ _ ↔ _) ∧ (n = u.accepted ∧ _ ↔ _)
      rw [accepted]
      simp [current]

/-- `OnRelease` takes the last notice of an announced session, whose handlers have all returned. -/
theorem Opened.leads_onRelease (opened : Opened cfg s) (counts : Counts cfg s) (at_i : s.threads[i]? = some t)
    (taken : next cfg s t.role ans t.pc = some (u, pc')) (few : references (s.moved u i t pc') < 2 ^ 31 - 1)
    (small : n < 2 ^ 32) (here : t.pc = .onRelease sessionID) :
    (phase cfg s n).Leads (ofSession (newSessionID cfg n) (t.pc.happening s ans)) (phase cfg (s.moved u i t pc') n) := by
  have member := List.mem_of_getElem? at_i
  have happens : t.pc.happening s ans = some (sessionID, .releaseBegins) := by
    rw [here]
    rfl
  by_cases this : sessionID = newSessionID cfg n
  · subst this
    have one : releasingID (newSessionID cfg n) t.pc = 1 := by
      rw [here]
      exact if_pos rfl
    have own := le_weigh (w := releasingID (newSessionID cfg n)) member
    have waits : 0 < pending s (newSessionID cfg n) := by
      unfold pending
      omega
    have issued : n ∈ s.issued := by
      obtain ⟨m, held, same⟩ := opened.noticed _ waits
      have small' := Nat.lt_of_le_of_lt (opened.past m held) opened.range
      exact (newSessionID_eq_iff small small').mp same ▸ held
    have most := opened.once n issued
    have moved := opened.notices_moved counts at_i taken few issued
    have issued' : u.issued = s.issued := by
      rcases next_announces taken with ⟨announces, -⟩ | ⟨-, same, -⟩
      · rw [here] at announces
        cases announces
      · exact same
    have idle : phase cfg s n = .idle := by
      refine phase_idle issued (by omega) fun current => ?_
      have unowed : owed s = 0 := by
        unfold notices at most
        rw [if_pos current] at most
        omega
      -- a handler that still runs would owe the notice
      have none {x : Thread} (held : x ∈ s.threads) : inAccept x.pc = 0 ∧ inReceive x.pc = 0 := by
        by_contra runs
        have owes := (opened.works counts held (settled_of_handler (by omega))).1
        omega
      exact ⟨total_eq_zero.mpr fun x held => (none held).1, total_eq_zero.mpr fun x held => (none held).2⟩
    have released : phase cfg (s.moved u i t pc') n = .released := by
      unfold phase
      rw [if_neg, if_pos (by omega)]
      show ¬ n ∉ u.issued
      rw [issued']
      exact not_not.mpr issued
    rw [happens, ofSession_self, idle, released]
    rfl
  · rw [happens, ofSession_other this]
    refine opened.leads_quiet counts at_i taken few ?_ ?_ ?_ ?_
    · simp [here]
    · rw [here]
      rfl
    · rw [here] at taken
      cases taken
      rfl
    · rw [here]
      exact if_neg this

theorem Opened.leads_thread (opened : Opened cfg s) (counts : Counts cfg s) (at_i : s.threads[i]? = some t)
    (taken : next cfg s t.role ans t.pc = some (u, pc')) (few : references (s.moved u i t pc') < 2 ^ 31 - 1)
    (small : n < 2 ^ 32) :
    (phase cfg s n).Leads (ofSession (newSessionID cfg n) (t.pc.happening s ans)) (phase cfg (s.moved u i t pc') n) := by
  obtain ⟨toAccept, toReceive, -⟩ := next_enters taken
  cases happens : t.pc.happening s ans with
  | none =>
    refine opened.leads_quiet counts at_i taken few ?_ ?_ ?_ ?_
    · intro here
      simp [here, Pc.happening] at happens
    · cases pc : t.pc <;> simp [pc, Pc.happening, inAccept, inReceive] at happens ⊢
    · cases pc'
      case onAcceptReturn => simp [toAccept rfl, Pc.happening] at happens
      case onReceiveReturn =>
        obtain ⟨frame, here⟩ := toReceive rfl
        simp [here, Pc.happening] at happens
      all_goals rfl
    · refine releasingID_other (fun sessionID here => ?_) _
      simp [here, Pc.happening] at happens
  | some happened =>
    rw [← happens]
    rcases next_handles taken happens with here | ⟨sessionID, here⟩ | ⟨id, receives, settles, uninit, after⟩
    · exact opened.leads_onAccept counts at_i taken few small here
    · exact opened.leads_onRelease counts at_i taken few small here
    · exact opened.leads_handler counts at_i taken few small receives settles uninit (happens.trans (by rw [← id])) after

/-- The session of a receive that is pending, or that no worker has picked up. -/
theorem Opened.pending_receive (opened : Opened cfg s) (counts : Counts cfg s) {j : Nat} {io : RecvIo} (at_j : s.recvIo[j]? = some io) :
    s.ID = newSessionID cfg s.accepted ∧ s.accepted ∈ s.issued ∧ 0 < notices cfg s s.accepted ∧
      weigh inAccept s = 0 ∧ weigh inReceive s = 0 := by
  have held := (List.getElem?_eq_some_iff.mp at_j).1
  have ops : 0 < (core s).ops := by
    simp only [core]
    omega
  have live : (core s).live = 1 := by
    rcases counts.inv.pinned with live | ⟨-, none⟩
    · exact live
    · omega
  have most := (owed_le counts).1
  have owes : owed s = 1 := by
    unfold owed at most ⊢
    omega
  have token := opened.token
  have inits := weigh_le (s := s) initialising_le_receiving
  have names := weigh_le (s := s) (v := naming) (w := initialising) fun pc => by
    cases pc <;> simp [naming, initialising, Pc.initialises]
  have accepts := weigh_le (s := s) inAccept_le
  have receives := weigh_le (s := s) inReceive_le
  obtain ⟨issued, noticed⟩ := opened.current owes (by omega)
  exact ⟨opened.named (by omega) (by omega), issued, noticed, by omega, by omega⟩

theorem weigh_outside (h : step cfg s l = some s') (outside : ∀ i ans, l ≠ .thread i ans) {w : Pc → Nat}
    (starts : ∀ pc, pc.Start → w pc = 0) : weigh w s' = weigh w s := by
  rcases (step_outside h outside).2 with same | ⟨t, more, start⟩
  · unfold weigh
    rw [same]
  · rw [weigh_join more]
    simp [total, starts t.pc start]

theorem owed_outside (h : step cfg s l = some s') (outside : ∀ i ans, l ≠ .thread i ans) : owed s' = owed s := by
  have same := (Session.step_outside h outside).1
  unfold owed
  rw [live_eq same.count same.inits, weigh_outside h outside fun pc start => by cases pc <;> first | rfl | exact start.elim]

theorem phase_outside (counts : Counts cfg s) (h : step cfg s l = some s') (outside : ∀ i ans, l ≠ .thread i ans) (n : Nat) :
    phase cfg s' n = phase cfg s n := by
  have same := (Session.step_outside h outside).1
  have pended := pending_outside h outside (newSessionID cfg n)
  have owes := owed_outside h outside
  have accepts := weigh_outside h outside (w := inAccept) fun pc start => by cases pc <;> first | rfl | exact start.elim
  have receives := weigh_outside h outside (w := inReceive) fun pc start => by cases pc <;> first | rfl | exact start.elim
  by_cases accepting : ∃ count sock address, l = .accept count sock address
  · obtain ⟨count, sock, address, rfl⟩ := accepting
    have key := (step_accept h).1
    have free := (owed_le counts).2 key
    obtain ⟨-, no_init, no_act, -⟩ := counts.vacant key
    have most := weigh_le (s := s) receiving_le
    rw [weigh_add] at most
    have acceptors := weigh_le (s := s) inAccept_le
    have receivers := weigh_le (s := s) inReceive_le
    refine phase_same (by rw [same.issued]) (fun issued => ?_) fun issued => ?_
    · unfold notices
      rw [pended, owes, free]
      simp
    · rw [accepts, receives, show weigh inAccept s = 0 by omega, show weigh inReceive s = 0 by omega]
      simp
  · obtain ⟨⟨accepted, -, -⟩, -⟩ := step_elsewhere h outside fun count sock address is => accepting ⟨count, sock, address, is⟩
    refine phase_same (by rw [same.issued]) (fun issued => ?_) fun issued => ?_
    · unfold notices
      rw [pended, owes, accepted]
    · rw [accepts, receives, accepted]
      exact ⟨Iff.rfl, Iff.rfl⟩

theorem Opened.leads_outside (opened : Opened cfg s) (counts : Counts cfg s) (h : step cfg s l = some s')
    (outside : ∀ i ans, l ≠ .thread i ans) (small : n < 2 ^ 32) :
    (phase cfg s n).Leads (ofSession (newSessionID cfg n) (happening s l)) (phase cfg s' n) := by
  have same := phase_outside counts h outside n
  cases l with
  | recvCompletes j data =>
    obtain ⟨io, at_j, -, -⟩ := step_recvCompletes h
    obtain ⟨id, issued, noticed, accepts, receives⟩ := opened.pending_receive counts at_j
    show (phase cfg s n).Leads (ofSession _ (some (s.ID, .received data))) _
    rw [id]
    by_cases current : n = s.accepted
    · subst current
      have idle : phase cfg s s.accepted = .idle := phase_idle issued noticed fun _ => ⟨accepts, receives⟩
      rw [ofSession_self, same, idle]
      rfl
    · rw [ofSession_other fun is => current ((newSessionID_eq_iff opened.range small).mp is).symm]
      exact same
  | thread i ans => exact absurd rfl (outside i ans)
  | accept | call | recvFails | sendCompletes | sendFails | workRecv | workSend | workRelease => exact same

/-! ### Runs of a slot -/

theorem history_append (sessionID : Nat) (tr : List (Slot × Label)) (x : Slot × Label) :
    history sessionID (tr ++ [x]) = history sessionID tr ++ (ofSession sessionID (happening x.1 x.2)).toList := by
  unfold history
  rw [List.filterMap_append]
  cases is : ofSession sessionID (happening x.1 x.2) <;> simp [is]

theorem follows_append (leads : p.Leads e p') (so_far : follows es = some p) : follows (es ++ e.toList) = some p' := by
  cases e with
  | none =>
    obtain rfl : p' = p := leads
    rw [Option.toList_none, List.append_nil]
    exact so_far
  | some e =>
    rw [Option.toList_some, follows_append_one, so_far]
    exact leads

theorem Opened.leads (opened : Opened cfg s) (counts : Counts cfg s) (bounded : Bounded cfg s l)
    (h : step cfg s l = some s') (small : n < 2 ^ 32) :
    (phase cfg s n).Leads (ofSession (newSessionID cfg n) (happening s l)) (phase cfg s' n) := by
  by_cases threaded : ∃ i ans, l = .thread i ans
  · obtain ⟨i, ans, rfl⟩ := threaded
    have few := bounded.1 s' h
    obtain ⟨t, u, pc', at_i, taken, rfl⟩ := step_thread h
    have happens : happening s (.thread i ans) = t.pc.happening s ans := by simp [happening, at_i]
    rw [happens]
    exact opened.leads_thread counts at_i taken few small
  · exact opened.leads_outside counts h (fun i ans is => threaded ⟨i, ans, is⟩) small

/-- The handler calls of every session keep to the protocol, and the slot knows how far they are. -/
theorem Run.follows (run : Run (slot cfg) (fun s l => Bounded cfg s l ∧ Numbered s l) tr s) (small : n < 2 ^ 32) :
    follows (history (newSessionID cfg n) tr) = some (phase cfg s n) := by
  refine run.invariant (I := fun tr s => Session.follows (history (newSessionID cfg n) tr) = some (phase cfg s n))
    (fun s fresh => ?_) fun tr s l s' before so_far ⟨bounded, _⟩ h => ?_
  · have unborn : phase cfg s n = .unborn := if_pos (by simp [fresh.unused.2.2])
    rw [unborn]
    rfl
  · obtain ⟨counts, opened⟩ := Run.opened before
    rw [history_append]
    exact follows_append (opened.leads counts bounded h small) so_far

/-- What happens, happens to a session that was accepted. -/
theorem Opened.happening_id (opened : Opened cfg s) (counts : Counts cfg s) (h : step cfg s l = some s')
    (happens : happening s l = some (sessionID, e)) : ∃ n < 2 ^ 32, sessionID = newSessionID cfg n := by
  cases l with
  | recvCompletes j data =>
    obtain ⟨io, at_j, -, -⟩ := step_recvCompletes h
    cases happens
    exact ⟨s.accepted, opened.range, (opened.pending_receive counts at_j).1⟩
  | thread i ans =>
    obtain ⟨t, u, pc', at_i, taken, -⟩ := step_thread h
    have happens : t.pc.happening s ans = some (sessionID, e) := by simpa [happening, at_i] using happens
    have member := List.mem_of_getElem? at_i
    rcases next_handles taken happens with here | ⟨released, here⟩ | ⟨rfl, -, settles, -⟩
    · rw [here] at happens
      cases happens
      exact ⟨s.accepted, opened.range, (opened.works counts member (by rw [here]; exact Nat.one_pos)).2⟩
    · rw [here] at happens
      cases happens
      have own := le_weigh (w := releasingID sessionID) member
      have one : releasingID sessionID t.pc = 1 := by
        rw [here]
        exact if_pos rfl
      obtain ⟨n, issued, is⟩ := opened.noticed sessionID (by unfold pending; omega)
      exact ⟨n, Nat.lt_of_le_of_lt (opened.past n issued) opened.range, is⟩
    · exact ⟨s.accepted, opened.range, (opened.works counts member settles).2⟩
  | accept | call | recvFails | sendCompletes | sendFails | workRecv | workSend | workRelease => cases happens

end WanNet.Session
