import WanNet.Session.Separation

/-!
The handler calls of a session: `OnAccept`, then `OnReceive` one call after the other, then
`OnRelease`. Who may still make which call is counted in the slot: one right to receive, and one
release notice for every session that was announced.
-/

namespace WanNet.Session
open Transition Threads ReleaseCount

variable {cfg : Config} {s s' u : Slot} {role : Role} {ans : Answer} {pc pc' : Pc} {t : Thread} {i n : Nat} {l : Label}

/-! ### What happens to a session -/

/-- A handler is called or returns, or bytes arrive. -/
inductive Happening where
  | acceptBegins
  | acceptReturns
  | received (bytes : List UInt8)
  | receiveBegins (packet : List UInt8)
  | receiveReturns
  | releaseBegins
  deriving DecidableEq

/-- What a thread's step is to the session with which ID. -/
def Pc.happening (s : Slot) (ans : Answer) : Pc → Option (Nat × Happening)
  | .onAccept => some (s.ID, .acceptBegins)
  | .onAcceptReturn => some (s.ID, .acceptReturns)
  | .wsaRecv _ _ =>
    match ans with
    | .atOnce data => some (s.ID, .received data)
    | _ => none
  | .onReceive frame => some (s.ID, .receiveBegins (frame.map RecvByte.byte))
  | .onReceiveReturn => some (s.ID, .receiveReturns)
  | .onRelease sessionID => some (sessionID, .releaseBegins)
  | _ => none

def happening (s : Slot) : Label → Option (Nat × Happening)
  | .recvCompletes _ data => some (s.ID, .received data)
  | .thread i ans => (s.threads[i]?).bind fun t => t.pc.happening s ans
  | _ => none

def ofSession (sessionID : Nat) (e : Option (Nat × Happening)) : Option Happening :=
  e.bind fun e => if e.1 = sessionID then some e.2 else none

def history (sessionID : Nat) (tr : List (Slot × Label)) : List Happening :=
  tr.filterMap fun x => ofSession sessionID (happening x.1 x.2)

/-- How far a session has come; bytes arrive only while none of its handlers runs. -/
inductive Phase where
  | unborn
  | accepting
  | idle
  | receiving
  | released
  deriving DecidableEq

def Phase.after : Phase → Happening → Option Phase
  | .unborn, .acceptBegins => some .accepting
  | .accepting, .acceptReturns => some .idle
  | .idle, .received _ => some .idle
  | .idle, .receiveBegins _ => some .receiving
  | .receiving, .receiveReturns => some .idle
  | .idle, .releaseBegins => some .released
  | _, _ => none

/-- The phase that a history leads to, if it keeps to the protocol. -/
def follows (es : List Happening) : Option Phase := es.foldlM Phase.after .unborn

theorem follows_append_one (es : List Happening) (e : Happening) : follows (es ++ [e]) = (follows es).bind fun phase => phase.after e := by
  simp [follows, List.foldlM_append]

/-! ### The duties of a slot -/

def posting : Pc → Nat
  | .releaseTest _ | .releaseClose _ | .releaseDisconnectedCount _ | .releaseSessionCount _ | .releasePost _ => 1
  | _ => 0

/-- The release notice that the session in the slot has still to post. -/
def owed (s : Slot) : Nat := (core s).live + weigh posting s

def releasingID (sessionID : Nat) : Pc → Nat
  | .onRelease released => if released = sessionID then 1 else 0
  | _ => 0

/-- The release notices posted for an ID, less those that `OnRelease` has been called for. -/
def pending (s : Slot) (sessionID : Nat) : Nat := s.posted.count sessionID + weigh (releasingID sessionID) s

def notices (cfg : Config) (s : Slot) (n : Nat) : Nat :=
  pending s (newSessionID cfg n) + if n = s.accepted then owed s else 0

/-- The accept counter grows, and stays within 32 bits. -/
def Numbered (s : Slot) : Label → Prop
  | .accept count _ _ => s.accepted < count ∧ count < 2 ^ 32
  | _ => True

instance : Decidable (Numbered s l) :=
  match l with
  | .accept _ _ _ => inferInstanceAs (Decidable (_ ∧ _))
  | .call _ _ | .recvCompletes _ _ | .recvFails _ | .sendCompletes _ | .sendFails _ | .workRecv _ | .workSend _
  | .workRelease _ | .thread _ _ => .isTrue trivial

structure Opened (cfg : Config) (s : Slot) : Prop where
  rounds : ∀ t ∈ s.threads, t.pc.initialises = true → ∃ address, t.role = .accept s.accepted s.acceptedSocket address
  token : weigh receiving s + s.recvIo.length ≤ 1
  named : weigh naming s = 0 → 0 < owed s → s.ID = newSessionID cfg s.accepted
  announced : weigh initialising s = 0 → 0 < owed s → s.accepted ∈ s.issued
  past : ∀ n ∈ s.issued, n ≤ s.accepted
  unissued : 0 < weigh initialising s → s.accepted ∉ s.issued
  range : s.accepted < 2 ^ 32
  noticed : ∀ sessionID, 0 < pending s sessionID → ∃ n ∈ s.issued, sessionID = newSessionID cfg n
  once : ∀ n ∈ s.issued, notices cfg s n ≤ 1

theorem posting_le (pc : Pc) : posting pc ≤ releasing (stage pc) := by
  cases pc <;> simp [posting, stage]

theorem owed_le (counts : Counts cfg s) : owed s ≤ 1 ∧ (0 < s.unusedKeys → owed s = 0) := by
  have owner : s.unusedKeys + _ + _ + _ = 1 := counts.inv.one_owner
  have posters := weigh_le (s := s) posting_le
  rw [weigh_stage] at posters
  unfold owed
  omega

theorem Opened.init (fresh : s.Fresh) : Opened cfg s := by
  obtain ⟨threads, recvIo, -, posted⟩ := fresh.idle
  obtain ⟨inits, accepted, issued⟩ := fresh.unused
  have none : owed s = 0 := by simp [owed, weigh, threads, Core.live, core, inits]
  have silent (sessionID : Nat) : pending s sessionID = 0 := by simp [pending, weigh, threads, posted]
  refine ⟨?_, ?_, ?_, ?_, ?_, ?_, ?_, ?_, ?_⟩
  · simp [threads]
  · simp [weigh, threads, recvIo]
  · omega
  · omega
  · simp [issued]
  · simp [issued]
  · omega
  · intro sessionID some
    have := silent sessionID
    omega
  · simp [issued]

/-! ### What a thread's step does to them -/

theorem next_receiving (h : next cfg s role ans pc = some (s', pc')) :
    receiving pc' + s'.recvIo.length ≤ receiving pc + s.recvIo.length := by
  by_cases aside : receiving pc = 0
  · obtain ⟨-, -, recvIo, aside'⟩ := next_aside h aside
    have length : s'.recvIo.length = s.recvIo.length := by
      rcases recvIo with same | cancelled
      · rw [same]
      · simp [cancelled, cancelIo]
    omega
  · cases next_moves h with
    | wsaRecv | wsaRecvAtOnce => simp [receiving, initialising, Pc.initialises, Nat.add_comm]
    | _ =>
      first
        | exact absurd rfl aside
        | simp [receiving, initialising, Pc.initialises]

theorem next_announces (h : next cfg s role ans pc = some (s', pc')) :
    pc = .onAccept ∧ pc' = .onAcceptReturn ∧ s' = { s with issued := s.accepted :: s.issued } ∨
      pc ≠ .onAccept ∧ s'.issued = s.issued ∧ initialising pc' = initialising pc := by
  by_cases init : pc.initialises = true
  · cases next_moves h with
    | onAccept => exact .inl ⟨rfl, rfl, rfl⟩
    | _ =>
      first
        | exact .inr ⟨fun here => (by cases here), rfl, rfl⟩
        | cases init
  · have fewer := (next_initialising h).1
    simp only [initialising, Bool.not_eq_true] at init fewer ⊢
    rw [init] at fewer ⊢
    refine .inr ⟨?_, (next_keeps h init).issued, by simpa using fewer⟩
    intro here
    rw [here] at init
    cases init

theorem next_posting (h : next cfg s role ans pc = some (s', pc')) :
    posting pc' = posting pc ∧ s'.posted = s.posted ∨
      (∃ again, pc = .decCas again ∧ pc' = .releaseTest again) ∧ s'.posted = s.posted ∧ s'.unusedKeys = s.unusedKeys ∨
      (∃ again, pc = .releasePost again ∧ pc' = .releasePush again) ∧ s'.posted = s.posted ++ [s.ID] ∨
      (∃ again, pc = .releaseTest again) ∧ s.bDisconnected = true := by
  cases next_moves h with
  | decCas again => exact .inr (.inl ⟨⟨again, rfl, rfl⟩, rfl, rfl⟩)
  | releasePost again => exact .inr (.inr (.inl ⟨⟨again, rfl, rfl⟩, rfl⟩))
  | releaseCrash again closed => exact .inr (.inr (.inr ⟨⟨again, rfl⟩, closed⟩))
  | decDecrement again | releasePush again => cases again <;> exact .inl ⟨rfl, rfl⟩
  | _ => exact .inl ⟨rfl, rfl⟩

/-- A session owes its release notice from the moment its slot lives until the notice is posted. -/
theorem owed_move (counts : Counts cfg s) (at_i : s.threads[i]? = some t) (taken : next cfg s t.role ans t.pc = some (u, pc'))
    (few : references (s.moved u i t pc') < 2 ^ 31 - 1) :
    owed (s.moved u i t pc') = owed s ∧ u.posted = s.posted ∨
      t.pc = .initClearFlag ∧ owed s = 0 ∧ u.posted = s.posted ∨
      (∃ again, t.pc = .releasePost again) ∧ owed (s.moved u i t pc') = 0 ∧ owed s = 1 ∧ u.posted = s.posted ++ [s.ID] := by
  have member := List.mem_of_getElem? at_i
  have owner : s.unusedKeys + _ + _ + _ = 1 := counts.inv.one_owner
  have posters := weigh_le (s := s) posting_le
  rw [weigh_stage] at posters
  have changed := weigh_moved posting u pc' at_i
  have own := le_weigh (w := posting) member
  have moved := counts.move member taken
  rw [← refs_core, stages_moved] at few
  obtain ⟨balance, live⟩ := counts.inv.move_live (stages_at at_i) moved few
  have key : (core u).keys = u.unusedKeys := rfl
  have key' : (core s).keys = s.unusedKeys := rfl
  unfold owed
  show (core u).live + _ = _ ∧ _ ∨ _ ∨ _ ∧ (core u).live + _ = 0 ∧ _
  rcases next_posting taken with ⟨same, posted⟩ | ⟨⟨again, here, there⟩, posted, keys⟩ | ⟨⟨again, here, there⟩, posted⟩ | ⟨⟨again, here⟩, closed⟩
  · rcases live with still | ⟨revived, dead, -⟩ | ⟨⟨m, here, there⟩, -⟩
    · exact .inl ⟨by omega, posted⟩
    · have clear : t.pc = .initClearFlag := by
        cases pc : t.pc <;> rw [pc] at revived <;> simp [stage] at revived
      have revivers := le_total (w := reviving) (mem_stages member)
      rw [revived] at revivers
      simp only [reviving] at revivers
      exact .inr (.inl ⟨clear, by omega, posted⟩)
    · have leaves : posting t.pc = 0 := by
        cases pc : t.pc <;> rw [pc] at here <;> simp [stage] at here <;> rfl
      have closes : posting pc' = 1 := by
        cases pc' <;> simp [stage] at there
        rfl
      omega
  · have leaves : posting t.pc = 0 ∧ reviving (stage t.pc) = 0 ∧ releasing (stage t.pc) = 0 := by
      rw [here]
      exact ⟨rfl, rfl, rfl⟩
    have closes : posting pc' = 1 ∧ reviving (stage pc') = 0 ∧ releasing (stage pc') = 1 := by
      rw [there]
      exact ⟨rfl, rfl, rfl⟩
    rcases live with still | ⟨revived, -⟩ | ⟨-, -, alive, dead⟩
    · omega
    · rw [here] at revived
      cases revived
    · exact .inl ⟨by omega, posted⟩
  · have posts : posting t.pc = 1 ∧ posting pc' = 0 := by
      rw [here, there]
      exact ⟨rfl, rfl⟩
    rcases live with still | ⟨revived, -⟩ | ⟨⟨m, leaves, -⟩, -⟩
    · exact .inr (.inr ⟨⟨again, here⟩, by omega, by omega, posted⟩)
    · rw [here] at revived
      cases revived
    · rw [here] at leaves
      cases leaves
  · have closes := mem_stages member
    rw [here] at closes
    have unclosed : s.bDisconnected = false := counts.inv.open_while_closing closes
    rw [closed] at unclosed
    cases unclosed

/-- The handlers are entered one step at a time, `OnRelease` by a worker of its own. -/
theorem next_enters (h : next cfg s role ans pc = some (s', pc')) :
    (pc' = .onAcceptReturn → pc = .onAccept) ∧ (pc' = .onReceiveReturn → ∃ frame, pc = .onReceive frame) ∧
      ∀ sessionID, pc' ≠ .onRelease sessionID := by
  cases next_moves h with
  | decDecrement again | releasePush again => cases again <;> simp [decReturn]
  | _ => simp

theorem releasingID_other (h : ∀ sessionID, pc ≠ .onRelease sessionID) (sessionID : Nat) : releasingID sessionID pc = 0 := by
  cases pc <;> first | rfl | exact absurd rfl (h _)

theorem Opened.alone (opened : Opened cfg s) (at_i : s.threads[i]? = some t) (receives : receiving t.pc = 1)
    {w : Pc → Nat} (le : ∀ pc, w pc ≤ receiving pc) : weigh w s = w t.pc ∧ s.recvIo = [] := by
  have gone := weigh_moved w s .finished at_i
  have rest := weigh_moved receiving s .finished at_i
  have others := weigh_le (s := s.moved s i t .finished) le
  have done := le .finished
  have none : receiving .finished = 0 := rfl
  have token := opened.token
  exact ⟨by omega, List.length_eq_zero_iff.mp (by omega)⟩

/-- A thread that has got past the closed mark works for the session that was accepted last. -/
theorem Opened.works (opened : Opened cfg s) (counts : Counts cfg s) (member : t ∈ s.threads)
    (settles : 0 < settled (stage t.pc)) : owed s = 1 ∧ s.ID = newSessionID cfg s.accepted := by
  have in_stage := mem_stages member
  have live : (core s).live = 1 :=
    counts.inv.live_of_within in_stage (Nat.lt_of_lt_of_le settles (settled_le_within _))
  have none := counts.inv.no_opening (counts.inv.unclosed_of_settled in_stage settles)
  have names := weigh_le (s := s) naming_le_opening
  rw [weigh_stage] at names
  have most := (owed_le counts).1
  have owes : owed s = 1 := by
    unfold owed at most ⊢
    omega
  exact ⟨owes, opened.named (by omega) (by omega)⟩

theorem Opened.posts (opened : Opened cfg s) (counts : Counts cfg s) (member : t ∈ s.threads) (here : t.pc = .releasePost again) :
    s.ID = newSessionID cfg s.accepted ∧ s.accepted ∈ s.issued := by
  have in_stage := mem_stages member
  have owner : s.unusedKeys + _ + _ + _ = 1 := counts.inv.one_owner
  have releases := le_total (w := releasing) in_stage
  have posts := le_weigh (w := posting) member
  rw [here] at in_stage releases posts
  have dead : (core s).live = 0 := by
    simp only [stage, releasing] at releases
    omega
  have nobody : total within (stages s) = 0 := by
    rcases counts.inv.pinned with live | ⟨none, -⟩
    · omega
    · exact none
  have inits := weigh_le (s := s) initialising_le
  rw [weigh_add, weigh_stage, weigh_stage] at inits
  have names := weigh_le (s := s) naming_le_opening
  rw [weigh_stage] at names
  have openers := total_le_total opening_le_within (stages s)
  have owes : 0 < owed s := by
    simp only [posting] at posts
    unfold owed
    omega
  simp only [stage, releasing] at releases
  exact ⟨opened.named (by omega) owes, opened.announced (by omega) owes⟩

theorem newSessionID_eq_iff (small : m < 2 ^ 32) (small' : n < 2 ^ 32) : newSessionID cfg m = newSessionID cfg n ↔ m = n := by
  rw [newSessionID_eq, newSessionID_eq]
  omega

theorem pending_moved (at_i : s.threads[i]? = some t) (taken : next cfg s t.role ans t.pc = some (u, pc')) (sessionID : Nat) :
    pending (s.moved u i t pc') sessionID + releasingID sessionID t.pc + s.posted.count sessionID =
      pending s sessionID + u.posted.count sessionID := by
  have changed := weigh_moved (releasingID sessionID) u pc' at_i
  have gone := releasingID_other (next_enters taken).2.2 sessionID
  unfold pending
  show u.posted.count sessionID + _ + _ + _ = _
  omega

/-- Only a call of `OnRelease` takes a notice of an announced session away. -/
theorem Opened.notices_moved (opened : Opened cfg s) (counts : Counts cfg s) (at_i : s.threads[i]? = some t)
    (taken : next cfg s t.role ans t.pc = some (u, pc')) (few : references (s.moved u i t pc') < 2 ^ 31 - 1)
    (issued : n ∈ s.issued) :
    notices cfg (s.moved u i t pc') n + releasingID (newSessionID cfg n) t.pc = notices cfg s n := by
  have member := List.mem_of_getElem? at_i
  have accepted : u.accepted = s.accepted := (next_accepted taken).1
  have pended := pending_moved at_i taken (newSessionID cfg n)
  unfold notices
  show _ + (if n = u.accepted then _ else 0) + _ = _
  rw [accepted]
  rcases owed_move counts at_i taken few with ⟨owes, posted⟩ | ⟨here, -, posted⟩ | ⟨⟨again, here⟩, after, before, posted⟩
  · rw [owes]
    rw [posted] at pended
    omega
  · have init := le_weigh (w := initialising) member
    rw [here] at init
    have other : n ≠ s.accepted := fun same => opened.unissued init (same ▸ issued)
    rw [posted] at pended
    rw [if_neg other, if_neg other]
    omega
  · obtain ⟨id, -⟩ := opened.posts counts member here
    have small := Nat.lt_of_le_of_lt (opened.past n issued) opened.range
    have quiet : releasingID (newSessionID cfg n) t.pc = 0 := by
      rw [here]
      rfl
    rw [posted, List.count_append, List.count_singleton, id] at pended
    by_cases current : n = s.accepted
    · rw [if_pos current, if_pos current, after, before]
      rw [if_pos (by simp [current])] at pended
      omega
    · have apart : ¬ newSessionID cfg s.accepted = newSessionID cfg n := fun same =>
        current ((newSessionID_eq_iff opened.range small).mp same).symm
      rw [if_neg current, if_neg current]
      rw [if_neg (by simpa using apart)] at pended
      omega

theorem next_id (h : next cfg s role ans pc = some (s', pc')) :
    pc = .initID ∧ (∃ count sock address, role = .accept count sock address ∧ s'.ID = newSessionID cfg count) ∨
      pc ≠ .initID ∧ s'.ID = s.ID := by
  cases next_moves h with
  | initID count sock address accept => exact .inl ⟨rfl, ⟨count, sock, address, accept, rfl⟩⟩
  | _ => exact .inr ⟨fun here => (by cases here), rfl⟩

/-- Nobody has a notice for a session that is being initialised. -/
theorem Opened.unnoticed (opened : Opened cfg s) (fresh : s.accepted ∉ s.issued) : pending s (newSessionID cfg s.accepted) = 0 := by
  by_contra some
  obtain ⟨n, issued, same⟩ := opened.noticed _ (Nat.pos_of_ne_zero some)
  have small := Nat.lt_of_le_of_lt (opened.past n issued) opened.range
  exact fresh ((newSessionID_eq_iff opened.range small).mp same ▸ issued)

theorem Opened.step_move (opened : Opened cfg s) (counts : Counts cfg s) (at_i : s.threads[i]? = some t)
    (taken : next cfg s t.role ans t.pc = some (u, pc')) (few : references (s.moved u i t pc') < 2 ^ 31 - 1) :
    Opened cfg (s.moved u i t pc') := by
  have member := List.mem_of_getElem? at_i
  obtain ⟨accepted, sock, -⟩ := next_accepted taken
  have owing := owed_move counts at_i taken few
  have inits := weigh_moved initialising u pc' at_i
  have announcing := next_announces taken
  have begun : initialising pc' ≤ initialising t.pc := (next_initialising taken).1
  have one_init := weigh_le (s := s) initialising_le_receiving
  have token := opened.token
  refine ⟨?_, ?_, ?_, ?_, ?_, ?_, ?_, ?_, ?_⟩
  · intro x held init
    show ∃ address, x.role = .accept u.accepted u.acceptedSocket address
    rw [accepted, sock]
    rcases mem_moved held with old | rfl
    · exact opened.rounds x old init
    · refine opened.rounds t member ?_
      simp only [initialising] at begun
      rw [init] at begun
      cases before : t.pc.initialises with
      | true => rfl
      | false => rw [before] at begun; exact absurd begun (by decide)
  · have receives := weigh_moved receiving u pc' at_i
    have step := next_receiving taken
    show _ + u.recvIo.length ≤ 1
    omega
  · intro unnamed owes
    show u.ID = newSessionID cfg u.accepted
    rw [accepted]
    have names := weigh_moved naming u pc' at_i
    rcases next_id taken with ⟨here, count, sock, address, role, id⟩ | ⟨elsewhere, same⟩
    · obtain ⟨_, is⟩ := opened.rounds t member (by rw [here]; rfl)
      rw [role] at is
      rw [id, (Role.accept.inj is).1]
    · have quiet := naming_other elsewhere
      rw [same]
      rcases owing with ⟨owes', -⟩ | ⟨here, -, -⟩ | ⟨-, after, -⟩
      · exact opened.named (by omega) (by omega)
      · obtain rfl : pc' = .initID := by
          rw [here] at taken
          cases taken
          rfl
        have one : naming .initID = 1 := rfl
        omega
      · omega
  · intro uninit owes
    show u.accepted ∈ u.issued
    rw [accepted]
    rcases announcing with ⟨-, -, rfl⟩ | ⟨-, same, weight⟩
    · exact .head _
    · rw [same]
      rcases owing with ⟨owes', -⟩ | ⟨here, -, -⟩ | ⟨-, after, -⟩
      · exact opened.announced (by omega) (by omega)
      · have own := le_weigh (w := initialising) member
        have one : initialising t.pc = 1 := by
          rw [here]
          rfl
        omega
      · omega
  · show ∀ n ∈ u.issued, n ≤ u.accepted
    rw [accepted]
    rcases announcing with ⟨-, -, rfl⟩ | ⟨-, same, -⟩
    · intro n held
      rcases List.mem_cons.mp held with rfl | old
      · exact Nat.le_refl _
      · exact opened.past n old
    · rw [same]
      exact opened.past
  · intro init
    show u.accepted ∉ u.issued
    rw [accepted]
    rcases announcing with ⟨here, rfl, rfl⟩ | ⟨-, same, weight⟩
    · have last : initialising t.pc = 1 ∧ initialising .onAcceptReturn = 0 := by
        rw [here]
        exact ⟨rfl, rfl⟩
      omega
    · rw [same]
      exact opened.unissued (by omega)
  · show u.accepted < 2 ^ 32
    rw [accepted]
    exact opened.range
  · intro sessionID some
    have grows : ∀ n ∈ s.issued, n ∈ u.issued := by
      rcases announcing with ⟨-, -, rfl⟩ | ⟨-, same, -⟩
      · exact fun n old => .tail _ old
      · exact fun n old => same ▸ old
    have pended := pending_moved at_i taken sessionID
    rcases owing with ⟨-, posted⟩ | ⟨-, -, posted⟩ | ⟨⟨again, here⟩, -, -, posted⟩
    · rw [posted] at pended
      obtain ⟨n, old, is⟩ := opened.noticed sessionID (by omega)
      exact ⟨n, grows n old, is⟩
    · rw [posted] at pended
      obtain ⟨n, old, is⟩ := opened.noticed sessionID (by omega)
      exact ⟨n, grows n old, is⟩
    · obtain ⟨id, issued⟩ := opened.posts counts member here
      by_cases this : s.ID = sessionID
      · exact ⟨s.accepted, grows _ issued, this.symm.trans id⟩
      · rw [posted, List.count_append, List.count_singleton, if_neg (by simpa using this)] at pended
        obtain ⟨n, old, is⟩ := opened.noticed sessionID (by omega)
        exact ⟨n, grows n old, is⟩
  · intro n held
    have held : n ∈ u.issued := held
    have old (issued : n ∈ s.issued) : notices cfg (s.moved u i t pc') n ≤ 1 := by
      have moved := opened.notices_moved counts at_i taken few issued
      have most := opened.once n issued
      omega
    rcases announcing with ⟨here, rfl, rfl⟩ | ⟨-, same, -⟩
    · rcases List.mem_cons.mp held with rfl | issued
      · have fresh := opened.unissued (by
          have own := le_weigh (w := initialising) member
          rwa [here] at own)
        have silent := opened.unnoticed fresh
        have pended := pending_moved at_i taken (newSessionID cfg s.accepted)
        have most := (owed_le counts).1
        unfold notices
        show _ + (if s.accepted = s.accepted then _ else 0) ≤ 1
        rw [if_pos rfl]
        rcases owing with ⟨owes, posted⟩ | ⟨clear, -⟩ | ⟨⟨again, post⟩, -⟩
        · rw [posted] at pended
          omega
        · rw [here] at clear
          cases clear
        · rw [here] at post
          cases post
      · exact old issued
    · exact old (same ▸ held)

/-! ### The other steps -/

/-- A thread that comes to take no part in an `Init` or a release. -/
def Quiet (pc : Pc) : Prop := initialising pc = 0 ∧ naming pc = 0 ∧ posting pc = 0

theorem owed_join (same : s.Untouched s') (threads : s'.threads = s.threads ++ new) (quiet : ∀ t ∈ new, posting t.pc = 0) :
    owed s' = owed s := by
  have none : total (fun t : Thread => posting t.pc) new = 0 := total_eq_zero.mpr quiet
  unfold owed
  rw [weigh_join threads, live_eq same.count same.inits]
  omega

theorem Opened.join (opened : Opened cfg s) (same : s.Untouched s') (threads : s'.threads = s.threads ++ new)
    (accepted : s'.accepted = s.accepted ∧ s'.acceptedSocket = s.acceptedSocket) (quiet : ∀ t ∈ new, Quiet t.pc)
    (token : total (fun t => receiving t.pc) new + s'.recvIo.length ≤ s.recvIo.length)
    (pended : ∀ sessionID, pending s' sessionID = pending s sessionID) : Opened cfg s' := by
  have owes : owed s' = owed s := owed_join same threads fun t held => (quiet t held).2.2
  have inits : weigh initialising s' = weigh initialising s := by
    have none : total (fun t : Thread => initialising t.pc) new = 0 := total_eq_zero.mpr fun t held => (quiet t held).1
    rw [weigh_join threads]
    omega
  have names : weigh naming s' = weigh naming s := by
    have none : total (fun t : Thread => naming t.pc) new = 0 := total_eq_zero.mpr fun t held => (quiet t held).2.1
    rw [weigh_join threads]
    omega
  refine ⟨?_, ?_, ?_, ?_, ?_, ?_, ?_, ?_, ?_⟩
  · intro t held init
    rw [accepted.1, accepted.2]
    rw [threads] at held
    rcases List.mem_append.mp held with old | joined
    · exact opened.rounds t old init
    · have none := (quiet t joined).1
      simp only [initialising, init] at none
      exact absurd none (by decide)
  · rw [weigh_join threads]
    have held := opened.token
    omega
  · rw [names, owes, same.id, accepted.1]
    exact opened.named
  · rw [inits, owes, same.issued, accepted.1]
    exact opened.announced
  · rw [same.issued, accepted.1]
    exact opened.past
  · rw [inits, same.issued, accepted.1]
    exact opened.unissued
  · rw [accepted.1]
    exact opened.range
  · intro sessionID
    rw [pended, same.issued]
    exact opened.noticed sessionID
  · rw [same.issued]
    intro n issued
    unfold notices
    rw [pended, owes, accepted.1]
    exact opened.once n issued

theorem pending_join (posted : s'.posted = s.posted) (threads : s'.threads = s.threads ++ new)
    (quiet : ∀ t ∈ new, releasingID n t.pc = 0) : pending s' n = pending s n := by
  have none : total (fun t : Thread => releasingID n t.pc) new = 0 := total_eq_zero.mpr quiet
  unfold pending
  rw [posted, weigh_join threads, none]
  rfl

theorem count_eraseIdx {l : List Nat} (h : l[j]? = some a) (b : Nat) :
    (l.eraseIdx j).count b + (if a = b then 1 else 0) = l.count b := by
  obtain ⟨lt, rfl⟩ := List.getElem?_eq_some_iff.mp h
  have same := (List.getElem_cons_eraseIdx_perm lt).count_eq b
  rw [List.count_cons] at same
  simpa using same

/-- The workers' turn: a notice goes from the port to the worker that takes it. -/
theorem pending_outside (h : step cfg s l = some s') (outside : ∀ i ans, l ≠ .thread i ans) (sessionID : Nat) :
    pending s' sessionID = pending s sessionID := by
  cases l with
  | accept count sock address =>
    have threads := congrArg Slot.threads (step_accept h).2
    obtain ⟨-, is⟩ := step_accept h
    exact pending_join (by rw [is]) threads (by simp [releasingID])
  | call call called =>
    obtain rfl := Option.some.inj h
    exact pending_join rfl rfl (by simp [releasingID])
  | recvCompletes j data =>
    obtain ⟨io, -, -, rfl⟩ := step_recvCompletes h
    rfl
  | recvFails j =>
    obtain ⟨io, -, rfl⟩ := step_recvFails h
    rfl
  | sendCompletes j =>
    obtain ⟨io, -, rfl⟩ := step_sendCompletes h
    rfl
  | sendFails j =>
    obtain ⟨io, -, rfl⟩ := step_sendFails h
    rfl
  | workRecv j =>
    obtain ⟨io, success, n, -, -, rfl⟩ := step_workRecv h
    exact pending_join rfl rfl (by cases success <;> simp [releasingID])
  | workSend j =>
    obtain ⟨io, success, n, -, -, rfl⟩ := step_workSend h
    exact pending_join rfl rfl (by cases success <;> simp [releasingID])
  | workRelease j =>
    obtain ⟨released, at_j, rfl⟩ := step_workRelease h
    have taken := count_eraseIdx at_j sessionID
    unfold pending
    rw [weigh_join rfl]
    simp only [total, List.map_cons, List.map_nil, List.sum_cons, List.sum_nil, releasingID]
    omega
  | thread i ans => exact absurd rfl (outside i ans)

theorem Opened.accept (opened : Opened cfg s) (counts : Counts cfg s) (numbered : Numbered s (.accept count sock address))
    (h : step cfg s (.accept count sock address) = some s') : Opened cfg s' := by
  have same := (Session.step_outside h (by simp)).1
  have threads := congrArg Slot.threads (step_accept h).2
  obtain ⟨key, is⟩ := step_accept h
  obtain ⟨later, range⟩ := numbered
  obtain ⟨-, no_init, no_act, no_ops⟩ := counts.vacant key
  have free := (owed_le counts).2 key
  have owes : owed s' = 0 := by
    rw [owed_join same threads (by simp [posting])]
    exact free
  have no_receiver : weigh receiving s = 0 := by
    have most := weigh_le (s := s) receiving_le
    rw [weigh_add] at most
    omega
  have none : s.recvIo = [] := List.length_eq_zero_iff.mp (by simp only [core] at no_ops; omega)
  have pended := pending_outside h (by simp)
  have newest : s'.accepted = count := by rw [is]
  refine ⟨?_, ?_, by omega, by omega, ?_, ?_, ?_, ?_, ?_⟩
  · intro t held init
    rw [threads] at held
    rcases List.mem_append.mp held with old | joined
    · have own := le_weigh (w := initialising) old
      rw [no_init] at own
      simp only [initialising, init] at own
      exact absurd own (by decide)
    · obtain rfl := List.mem_singleton.mp joined
      rw [is]
      exact ⟨address, rfl⟩
  · have io : s'.recvIo = [] := by rw [is]; exact none
    rw [weigh_join threads, no_receiver, io]
    simp [total, receiving, initialising, Pc.initialises]
  · rw [same.issued, newest]
    exact fun n issued => Nat.le_of_lt (Nat.lt_of_le_of_lt (opened.past n issued) later)
  · intro _ issued
    rw [same.issued, newest] at issued
    have := opened.past count issued
    omega
  · rw [newest]
    exact range
  · intro sessionID
    rw [pended, same.issued]
    exact opened.noticed sessionID
  · rw [same.issued]
    intro n issued
    have most := opened.once n issued
    unfold notices at most ⊢
    rw [pended, owes]
    rw [free] at most
    simpa using most

theorem Opened.step_outside (opened : Opened cfg s) (counts : Counts cfg s) (numbered : Numbered s l)
    (h : step cfg s l = some s') (outside : ∀ i ans, l ≠ .thread i ans) : Opened cfg s' := by
  have same := (Session.step_outside h outside).1
  have pended := pending_outside h outside
  cases l with
  | accept count sock address => exact opened.accept counts numbered h
  | thread i ans => exact absurd rfl (outside i ans)
  | call call sessionID =>
    obtain rfl := Option.some.inj h
    refine opened.join same rfl ⟨rfl, rfl⟩ (by simp [Quiet, initialising, Pc.initialises, naming, posting]) ?_ pended
    simp [Slot.spawn, total, receiving, initialising, Pc.initialises]
  | recvCompletes j data =>
    obtain ⟨io, at_j, short, rfl⟩ := step_recvCompletes h
    exact opened.join same (List.append_nil _).symm ⟨rfl, rfl⟩ (by simp) (by simp) pended
  | recvFails j =>
    obtain ⟨io, at_j, rfl⟩ := step_recvFails h
    exact opened.join same (List.append_nil _).symm ⟨rfl, rfl⟩ (by simp) (by simp) pended
  | sendCompletes j =>
    obtain ⟨io, -, rfl⟩ := step_sendCompletes h
    exact opened.join same (List.append_nil _).symm ⟨rfl, rfl⟩ (by simp) (by simp) pended
  | sendFails j =>
    obtain ⟨io, -, rfl⟩ := step_sendFails h
    exact opened.join same (List.append_nil _).symm ⟨rfl, rfl⟩ (by simp) (by simp) pended
  | workRecv j =>
    obtain ⟨io, success, n, at_j, status, rfl⟩ := step_workRecv h
    have shorter := length_eraseIdx_add_one at_j
    refine opened.join same rfl ⟨rfl, rfl⟩ ?_ ?_ pended
    · cases success <;> simp [Quiet, initialising, Pc.initialises, naming, posting]
    · cases success
      all_goals
        simp only [total, List.map_cons, List.map_nil, List.sum_cons, List.sum_nil, receiving, initialising, Pc.initialises,
          Bool.false_eq_true, if_true, if_false, Bool.toNat_false]
        omega
  | workSend j =>
    obtain ⟨io, success, n, -, -, rfl⟩ := step_workSend h
    refine opened.join same rfl ⟨rfl, rfl⟩ ?_ ?_ pended
    · cases success <;> simp [Quiet, initialising, Pc.initialises, naming, posting]
    · cases success <;> simp [total, receiving, initialising, Pc.initialises]
  | workRelease j =>
    obtain ⟨sessionID, at_j, rfl⟩ := step_workRelease h
    refine opened.join same rfl ⟨rfl, rfl⟩ (by simp [Quiet, initialising, Pc.initialises, naming, posting]) ?_ pended
    simp [total, receiving, initialising, Pc.initialises]

/-! ### Runs of a slot -/

theorem Run.opened (run : Run (slot cfg) (fun s l => Bounded cfg s l ∧ Numbered s l) tr s) :
    Counts cfg s ∧ Opened cfg s := by
  have counts {tr : List (Slot × Label)} {s : Slot} (run : Run (slot cfg) (fun s l => Bounded cfg s l ∧ Numbered s l) tr s) :
      Counts cfg s := Run.counts (run.mono fun _ _ both => both.1)
  refine ⟨counts run, run.invariant (I := fun _ s => Opened cfg s) (fun s fresh => Opened.init fresh) ?_⟩
  intro tr s l s' before opened ⟨bounded, numbered⟩ h
  by_cases threaded : ∃ i ans, l = .thread i ans
  · obtain ⟨i, ans, rfl⟩ := threaded
    have few := bounded.1 s' h
    obtain ⟨t, u, pc', at_i, taken, rfl⟩ := step_thread h
    exact opened.step_move (counts before) at_i taken few
  · exact opened.step_outside (counts before) numbered h fun i ans is => threaded ⟨i, ans, is⟩

end WanNet.Session
