import WanNet.Session.Separation

/-!
Where a session is on its way through the server's counters, from the key that `acceptThread` takes to the one that its
release gives back.
-/

namespace WanNet.Session
open Transition Threads ReleaseCount

variable {cfg : Config} {s s' u v v' : Slot} {role : Role} {ans : Answer} {pc pc' : Pc} {t : Thread} {i : Nat} {l : Label}

/-! ### The socket that a release closes -/

/-- A release that has not closed the session's socket yet. -/
def unclosed : Pc → Nat
  | .releaseTest _ | .releaseClose _ => 1
  | _ => 0

theorem unclosed_le_releasing (pc : Pc) : unclosed pc ≤ releasing (stage pc) := by
  cases pc <;> simp [unclosed, stage]

theorem unsocketed_le_opening (pc : Pc) : unsocketed pc ≤ reviving (stage pc) + opening (stage pc) := by
  cases pc <;> simp [unsocketed, stage]

theorem next_socket (h : next cfg s role ans pc = some (s', pc')) (other : pc ≠ .initSocket) : s'.Socket = s.Socket := by
  cases next_moves h with
  | initSocket => exact absurd rfl other
  | _ => rfl

theorem next_unclosed (h : next cfg s role ans pc = some (s', pc')) (closes : 0 < unclosed pc') :
    (0 < unclosed pc ∨ (∃ again, pc = .decCas again) ∧ s.IoCount = 1) ∧ s'.Socket = s.Socket := by
  cases next_moves h with
  | decCas again last => exact ⟨.inr ⟨⟨again, rfl⟩, last⟩, rfl⟩
  | releaseTest => exact ⟨.inl Nat.one_pos, rfl⟩
  | decDecrement again | releasePush again => cases again <;> cases closes
  | _ => cases closes

/-- The last reference leaves a session whose socket `Init` has written. -/
theorem Separate.socket_at_last (sep : Separate cfg s) (at_i : s.threads[i]? = some t) (leaves : ∃ again, t.pc = .decCas again)
    (one : s.IoCount = 1) : s.Socket = s.acceptedSocket := by
  obtain ⟨again, at_⟩ := leaves
  have inv := sep.counts.inv
  have there : (stages s)[i]? = some (.leaving again) := by
    rw [stages_at at_i, at_]
    rfl
  have count : (core s).count = 1 := one
  obtain ⟨alone, -⟩ := inv.alone_at_last there count
  have live := inv.live_of_busy (List.mem_of_getElem? there) (by simp) (by rw [count]; decide)
  refine sep.incoming.socket live ?_
  have apart : weigh unsocketed s ≤ weigh (fun pc => reviving (stage pc) + opening (stage pc)) s := weigh_le unsocketed_le_opening
  rw [weigh_add, weigh_stage, weigh_stage] at apart
  have within := total_le_total opening_le_within (stages s)
  have owner := inv.one_owner
  omega

theorem Run.closing (run : Run (slot cfg) (fun s l => Few cfg s l ∧ Called cfg s l) tr s) :
    ∀ t ∈ s.threads, 0 < unclosed t.pc → s.Socket = s.acceptedSocket := by
  refine run.invariant (I := fun _ s => ∀ t ∈ s.threads, 0 < unclosed t.pc → s.Socket = s.acceptedSocket) (fun s fresh => ?_)
    fun tr s l s' before closing _ h => ?_
  · intro t member
    rw [fresh.idle.1] at member
    cases member
  have sep := Run.separate before
  have inv := sep.counts.inv
  have owner := inv.one_owner
  intro t member closes
  have releases {t : Thread} (member : t ∈ s.threads) (closes : 0 < unclosed t.pc) : 0 < total releasing (stages s) := by
    have own := le_total (w := releasing) (mem_stages member)
    have below := unclosed_le_releasing t.pc
    omega
  by_cases threaded : ∃ i ans, l = .thread i ans
  · obtain ⟨i, ans, rfl⟩ := threaded
    obtain ⟨x, u, pc', at_i, taken, rfl⟩ := step_thread h
    show u.Socket = u.acceptedSocket
    rw [(next_accepted taken).2.1]
    rcases mem_moved member with old | rfl
    · -- nobody writes the socket while the session is being released
      by_cases opens : x.pc = .initSocket
      · have live := inv.live_of_within (mem_stages (List.mem_of_getElem? at_i)) (by rw [opens]; exact Nat.one_pos)
        have := releases old closes
        omega
      · rw [next_socket taken opens]
        exact closing t old closes
    · obtain ⟨from_, same⟩ := next_unclosed taken closes
      rw [same]
      rcases from_ with closes | ⟨leaves, one⟩
      · exact closing x (List.mem_of_getElem? at_i) closes
      · exact sep.socket_at_last at_i leaves one
  · have outside (i : Nat) (ans : Answer) : l ≠ .thread i ans := fun is => threaded ⟨i, ans, is⟩
    obtain ⟨untouched, joins⟩ := step_outside h outside
    have old : t ∈ s.threads := by
      rcases joins with same | ⟨new, more, start⟩
      · rw [same] at member
        exact member
      · rw [more] at member
        rcases List.mem_append.mp member with old | joined
        · exact old
        · rw [List.mem_singleton.mp joined] at closes
          revert start closes
          cases new.pc <;> simp [Pc.Start, unclosed]
    have releases := releases old closes
    by_cases accepts : ∃ count sock address, l = .accept count sock address
    · obtain ⟨count, sock, address, rfl⟩ := accepts
      have taken : step cfg s (.accept count sock address) = some s' := h
      obtain ⟨key, -⟩ := step_accept taken
      have key : 0 < (core s).keys := key
      omega
    · obtain ⟨⟨-, sock, -⟩, -⟩ := step_elsewhere h outside fun count sock address is => accepts ⟨count, sock, address, is⟩
      rw [untouched.socket, sock]
      exact closing t old closes

/-! ### Where a session is counted -/

/-- The accept thread before `mSessionCount` counts the session, and its release after that. -/
def uncounted : Pc → Nat
  | .acceptIncrement | .initClearFlag | .initID | .initSocket | .initAddress | .initSendFlag | .initKey | .initDisconnected
  | .initRegistered | .initRecvBuffer | .initDrain | .initDropRefs _ | .initRegisteredCount | .acceptCount
  | .releasePost _ | .releasePush _ => 1
  | _ => 0

/-- A release after `mSessionDisconnectedCount` counts the session. -/
def ended : Pc → Nat
  | .releaseSessionCount _ | .releasePost _ | .releasePush _ => 1
  | _ => 0

/-- A release after it has closed the socket. -/
def socketless : Pc → Nat
  | .releaseDisconnectedCount _ | .releaseSessionCount _ | .releasePost _ | .releasePush _ => 1
  | _ => 0

/-- The slot's key is unused, or a thread of it is there. -/
def inPart (w : Pc → Nat) (s : Slot) : Nat := s.unusedKeys + weigh w s

/-- `++mSessionCount`, `--mSessionCount`, `++mSessionDisconnectedCount` and `TryClosesocket`. -/
def incrementsSessions : Pc → Nat
  | .acceptCount => 1
  | _ => 0

def decrementsSessions : Pc → Nat
  | .releaseSessionCount _ => 1
  | _ => 0

def incrementsDisconnected : Pc → Nat
  | .releaseDisconnectedCount _ => 1
  | _ => 0

def closesSocket : Pc → Nat
  | .releaseClose _ => 1
  | _ => 0

theorem increments_or_decrements (pc : Pc) : incrementsSessions pc + decrementsSessions pc ≤ 1 := by
  cases pc <;> simp [incrementsSessions, decrementsSessions]

theorem next_accounts (h : next cfg s role ans pc = some (s', pc')) (key : ∀ again, pc = .releasePush again → s.SessionListKey = cfg.key) :
    s'.unusedKeys + uncounted pc' + incrementsSessions pc = s.unusedKeys + uncounted pc + decrementsSessions pc ∧
      s'.unusedKeys + ended pc' = s.unusedKeys + ended pc + incrementsDisconnected pc ∧
      s'.unusedKeys + socketless pc' = s.unusedKeys + socketless pc + closesSocket pc := by
  cases next_moves h with
  | releasePush again =>
    rw [if_pos (key again rfl)]
    cases again <;> exact ⟨rfl, rfl, rfl⟩
  | decDecrement again => cases again <;> exact ⟨rfl, rfl, rfl⟩
  | _ => exact ⟨rfl, rfl, rfl⟩

theorem inPart_moved {w : Pc → Nat} (gain loss : Nat) (at_i : s.threads[i]? = some t) (same : u.unusedKeys + w pc' + loss = s.unusedKeys + w t.pc + gain) :
    inPart w (s.moved u i t pc') + loss = inPart w s + gain := by
  have weighs := weigh_moved w u pc' at_i
  have keys : (s.moved u i t pc').unusedKeys = u.unusedKeys := rfl
  unfold inPart
  omega

theorem outside_of_start (start : pc.Start) (quiet : pc.initialises = false) : uncounted pc = 0 ∧ ended pc = 0 ∧ socketless pc = 0 := by
  cases pc with
  | acceptIncrement => cases quiet
  | callIncrement | recvDoneMove | sendDoneTake | decCas | onRelease => exact ⟨rfl, rfl, rfl⟩
  | _ => cases start

theorem inPart_start {w : Pc → Nat} (start : ∀ pc, pc.Start → pc.initialises = false → w pc = 0) (h : step cfg s l = some s')
    (outside : ∀ i ans, l ≠ .thread i ans) (noaccept : ∀ count sock address, l ≠ .accept count sock address) : inPart w s' = inPart w s := by
  obtain ⟨⟨-, -, keys⟩, joins⟩ := step_elsewhere h outside noaccept
  unfold inPart
  rw [keys]
  rcases joins with same | ⟨t, more, starts, quiet⟩
  · unfold weigh
    rw [same]
  · rw [weigh_join more]
    simp [total, start t.pc starts quiet]

theorem inPart_accept {w : Pc → Nat} {count sock address : Nat} (h : step cfg s (.accept count sock address) = some s') :
    0 < s.unusedKeys ∧ inPart w s' + 1 = inPart w s + w .acceptIncrement ∧ s'.acceptedSocket = sock := by
  obtain ⟨key, is⟩ := step_accept h
  have threads : s'.threads = s.threads ++ [⟨.accept count sock address, .acceptIncrement⟩] := by
    rewrite [is]
    rfl
  have keys : s'.unusedKeys = s.unusedKeys - 1 := by rewrite [is]; rfl
  refine ⟨key, ?_, by rewrite [is]; rfl⟩
  unfold inPart
  rw [weigh_join threads, keys]
  simp only [total, List.map_cons, List.map_nil, List.sum_cons, List.sum_nil]
  omega

theorem initialising_stage (pc : Pc) (initialises : initialising pc ≠ 0) : 0 < reviving (stage pc) ∨ 0 < within (stage pc) := by
  cases pc <;> simp [initialising, Pc.initialises, stage] at *

/-- A slot is in each part at most once. -/
theorem Counts.inPart_le (counts : Counts cfg s) (exclusive : Exclusive s) :
    inPart uncounted s ≤ 1 ∧ inPart ended s ≤ 1 ∧ inPart socketless s ≤ 1 := by
  have owner := counts.inv.one_owner
  have key : (core s).keys = s.unusedKeys := rfl
  rw [← weigh_stage, ← weigh_stage] at owner
  have drops : weigh ended s ≤ weigh (fun pc => releasing (stage pc)) s := weigh_le fun pc => by cases pc <;> simp [ended, stage]
  have closed : weigh socketless s ≤ weigh (fun pc => releasing (stage pc)) s := weigh_le fun pc => by cases pc <;> simp [socketless, stage]
  unfold inPart
  refine ⟨?_, by omega, by omega⟩
  have below : weigh uncounted s ≤ weigh (fun pc => initialising pc + releasing (stage pc)) s :=
    weigh_le fun pc => by cases pc <;> simp [uncounted, initialising, Pc.initialises, stage]
  rw [weigh_add] at below
  by_cases quiet : weigh initialising s = 0
  · omega
  · obtain ⟨t, member, initialises⟩ : ∃ t ∈ s.threads, initialising t.pc ≠ 0 := by
      by_contra none
      push Not at none
      exact quiet (total_eq_zero.mpr none)
    have one := exclusive.1
    rcases initialising_stage t.pc initialises with revives | inside
    · have own := le_weigh (w := fun pc => reviving (stage pc)) member
      omega
    · have live := counts.inv.live_of_within (mem_stages member) inside
      omega

end WanNet.Session
