import WanNet.Server.Handlers
import WanNet.Session.Parts

/-!
`mSessionCount`, `mSessionAcceptedCount`, `mSessionDisconnectedCount` and the sockets that are closed, over any interleaving.
-/

namespace WanNet.Server
open Transition Threads Session

variable {p : Params} {s s' : NetServer} {v v' : Slot} {key i : Nat} {pc : Pc}

/-- The socket is that of a session whose release has not closed it. -/
def holds (sock : Nat) (v : Slot) : Nat := if inPart socketless v = 0 ∧ v.acceptedSocket = sock then 1 else 0

/-- The counters and the sockets, whatever accept threads and releases are in the middle of. -/
structure Accounts (s : NetServer) : Prop where
  sessions : s.mSessionCount + total (inPart uncounted) s.mSessionList = s.mMaxSessionCount
  ended : s.mSessionAcceptedCount + total (inPart ended) s.mSessionList = s.mSessionDisconnectedCount + s.mMaxSessionCount
  sockets : ∀ sock, s.closed.count sock + total (holds sock) s.mSessionList = (s.opened.map Prod.snd).count sock

theorem Sound.each (sound : Sound p s) (inside : v ∈ s.mSessionList) :
    inPart uncounted v ≤ 1 ∧ inPart Session.ended v ≤ 1 ∧ inPart socketless v ≤ 1 := by
  obtain ⟨key, here⟩ := List.mem_iff_getElem?.mp inside
  obtain ⟨_, run⟩ := sound.slots key v here
  have sep := Run.separate run
  exact sep.counts.inPart_le sep.identified.exclusive

theorem effect_counts (s : NetServer) (v : Slot) (pc : Pc) (low : 0 < incrementsSessions pc → s.mSessionCount + 1 < 2 ^ 32)
    (high : 0 < decrementsSessions pc → 0 < s.mSessionCount ∧ s.mSessionCount < 2 ^ 32)
    (few : 0 < incrementsDisconnected pc → s.mSessionDisconnectedCount + 1 < 2 ^ 64) :
    (effect s v pc).mSessionCount + decrementsSessions pc = s.mSessionCount + incrementsSessions pc ∧
      (effect s v pc).mSessionDisconnectedCount = s.mSessionDisconnectedCount + incrementsDisconnected pc ∧
      ∀ sock, (effect s v pc).closed.count sock = s.closed.count sock + if 0 < closesSocket pc ∧ v.Socket = sock then 1 else 0 := by
  cases pc with
  | acceptCount =>
    have low := low Nat.one_pos
    refine ⟨?_, rfl, fun sock => rfl⟩
    show (s.mSessionCount + 1) % 2 ^ 32 + 0 = s.mSessionCount + 1
    omega
  | releaseSessionCount again =>
    obtain ⟨pos, word⟩ := high Nat.one_pos
    refine ⟨?_, rfl, fun sock => rfl⟩
    show dec32 s.mSessionCount + 1 = s.mSessionCount
    unfold dec32
    omega
  | releaseDisconnectedCount again =>
    have few := few Nat.one_pos
    refine ⟨rfl, ?_, fun sock => rfl⟩
    show (s.mSessionDisconnectedCount + 1) % 2 ^ 64 = s.mSessionDisconnectedCount + 1
    omega
  | releaseClose again =>
    refine ⟨rfl, rfl, fun sock => ?_⟩
    show (v.Socket :: s.closed).count sock = _
    rw [List.count_cons]
    simp [closesSocket]
  | _ => exact ⟨rfl, rfl, fun sock => rfl⟩

theorem Accounts.init (started : Started s) : Accounts s := by
  obtain ⟨accepted, disconnected, count⟩ := started.counters
  obtain ⟨-, closed, opened⟩ := started.unused
  have one (w : Pc → Nat) (v : Slot) (inside : v ∈ s.mSessionList) : inPart w v = 1 := by
    have fresh := (started.slots v inside).1
    unfold inPart weigh
    rw [fresh.free, fresh.idle.1]
    rfl
  have all (w : Pc → Nat) : total (inPart w) s.mSessionList = s.mSessionList.length := by
    have whole := length_filter_add_total fun v inside => Nat.le_of_eq (one w v inside)
    have none : s.mSessionList.filter (fun v => inPart w v = 0) = [] := by
      refine List.filter_eq_nil_iff.mpr fun v inside => ?_
      simp [one w v inside]
    rw [none, List.length_nil] at whole
    omega
  constructor
  case sessions =>
    rw [count, all uncounted, Nat.zero_add]
    rfl
  case ended =>
    rw [accepted, disconnected, all Session.ended]
    rfl
  case sockets =>
    intro sock
    have none : total (holds sock) s.mSessionList = 0 := by
      refine total_eq_zero.mpr fun v inside => if_neg fun is => ?_
      rw [one socketless v inside] at is
      cases is.1
    rw [none, closed, opened]
    rfl

/-- A slot's parts and the counters move together. -/
theorem Accounts.put {w : NetServer} (accounts : Accounts s) (here : s.mSessionList[key]? = some v) (list : w.mSessionList = s.mSessionList)
    (sessions : w.mSessionCount + inPart uncounted v' = s.mSessionCount + inPart uncounted v)
    (ended : w.mSessionAcceptedCount + inPart Session.ended v' + s.mSessionDisconnectedCount =
      s.mSessionAcceptedCount + inPart Session.ended v + w.mSessionDisconnectedCount)
    (sockets : ∀ sock, w.closed.count sock + holds sock v' + (s.opened.map Prod.snd).count sock =
      s.closed.count sock + holds sock v + (w.opened.map Prod.snd).count sock) : Accounts (w.put key v') := by
  have max : (w.put key v').mMaxSessionCount = s.mMaxSessionCount := by
    unfold NetServer.mMaxSessionCount
    rw [← list]
    exact List.length_set
  have set (part : Slot → Nat) : total part (w.put key v').mSessionList + part v = total part s.mSessionList + part v' := by
    rw [← list] at here ⊢
    exact total_set here
  constructor
  case sessions =>
    have before := accounts.sessions
    have set := set (inPart uncounted)
    rw [max]
    show w.mSessionCount + _ = _
    omega
  case ended =>
    have before := accounts.ended
    have set := set (inPart Session.ended)
    rw [max]
    show w.mSessionAcceptedCount + _ = w.mSessionDisconnectedCount + _
    omega
  case sockets =>
    intro sock
    have before := accounts.sockets sock
    have set := set (holds sock)
    have moved := sockets sock
    show w.closed.count sock + _ = (w.opened.map Prod.snd).count sock
    omega

/-- A step of a slot that is none of a thread's. -/
theorem Accounts.still {l : Session.Label} (accounts : Accounts s) (here : s.mSessionList[key]? = some v)
    (taken : Session.step (p.config key) v l = some v') (outside : ∀ i ans, l ≠ .thread i ans)
    (noaccept : ∀ count sock address, l ≠ .accept count sock address) : Accounts (s.put key v') := by
  have start {w : Pc → Nat} (none : ∀ pc, pc.Start → pc.initialises = false → w pc = 0) : inPart w v' = inPart w v :=
    inPart_start none taken outside noaccept
  have sessions := start (w := uncounted) fun _ start quiet => (outside_of_start start quiet).1
  have drops := start (w := Session.ended) fun _ start quiet => (outside_of_start start quiet).2.1
  have closed := start (w := socketless) fun _ start quiet => (outside_of_start start quiet).2.2
  obtain ⟨⟨-, sock, -⟩, -⟩ := step_elsewhere taken outside noaccept
  apply accounts.put here rfl
  case sessions => rw [sessions]
  case ended => rw [drops]
  case sockets =>
    intro socket
    unfold holds
    rw [closed, sock]

theorem Accounts.call {request : Request} {sessionID : Nat} (accounts : Accounts s) (h : step p s (.call request sessionID) = some s') : Accounts s' := by
  obtain ⟨rfl, -⟩ | ⟨call, key, v, v', -, -, here, taken, rfl⟩ := step_call h
  · exact accounts
  · exact accounts.still here taken (by simp) (by simp)

theorem Accounts.accept {address : Nat} (accounts : Accounts s) (sound : Sound p s) (range : s.mSessionAcceptedCount + 1 < 2 ^ 32)
    (h : step p s (.accept address) = some s') : Accounts s' := by
  have counted : (s.mSessionAcceptedCount + 1) % 2 ^ 64 = s.mSessionAcceptedCount + 1 := by omega
  obtain ⟨-, ⟨-, rfl⟩ | ⟨key, rest, v, v', -, here, taken, rfl⟩⟩ := step_accept h
  · exact ⟨accounts.sessions, accounts.ended, accounts.sockets⟩
  obtain ⟨-, -, one⟩ := sound.each (List.mem_of_getElem? here)
  obtain ⟨free, sessions, sock⟩ := inPart_accept (w := uncounted) taken
  obtain ⟨-, drops, -⟩ := inPart_accept (w := Session.ended) taken
  obtain ⟨-, closed, -⟩ := inPart_accept (w := socketless) taken
  have sessions : inPart uncounted v' + 1 = inPart uncounted v + 1 := sessions
  have drops : inPart Session.ended v' + 1 = inPart Session.ended v := drops
  have closed : inPart socketless v' + 1 = inPart socketless v := closed
  apply accounts.put (w := { s with
    mUnusedSessionKeys := rest
    mSessionAcceptedCount := (s.mSessionAcceptedCount + 1) % 2 ^ 64
    clients := s.clients + 1
    opened := s.opened ++ [(newSessionID (p.config key) ((s.mSessionAcceptedCount + 1) % 2 ^ 64), s.clients + 1)] }) here rfl
  case sessions =>
    show s.mSessionCount + _ = s.mSessionCount + _
    omega
  case ended =>
    show (s.mSessionAcceptedCount + 1) % 2 ^ 64 + _ + s.mSessionDisconnectedCount = _ + s.mSessionDisconnectedCount
    omega
  case sockets =>
    intro socket
    have unheld : holds socket v = 0 := if_neg fun is => by omega
    have held : holds socket v' = if s.clients + 1 = socket then 1 else 0 := by
      unfold holds
      rw [sock]
      have none : inPart socketless v' = 0 := by omega
      simp only [none, true_and]
    show s.closed.count socket + holds socket v' + _ = s.closed.count socket + _ + ((s.opened ++ [_]).map Prod.snd).count socket
    rw [List.map_append, List.count_append, List.map_cons, List.map_nil, List.count_singleton]
    simp only [beq_iff_eq]
    omega

theorem Sound.put_each {w : NetServer} (sound : Sound p (w.put key v')) (here : s.mSessionList[key]? = some v)
    (list : w.mSessionList = s.mSessionList) : inPart uncounted v' ≤ 1 ∧ inPart Session.ended v' ≤ 1 ∧ inPart socketless v' ≤ 1 := by
  refine sound.each ?_
  rw [← list] at here
  exact List.mem_set (List.getElem?_eq_some_iff.mp here).1 _

/-- `++mSessionCount` and `--mSessionCount` never wrap: there are as many sessions as slots, and the slot counts itself. -/
theorem Accounts.counts_on (accounts : Accounts s) (sound : Sound p s) (here : s.mSessionList[key]? = some v)
    (sessions : inPart uncounted v' + incrementsSessions pc = inPart uncounted v + decrementsSessions pc) (on : 0 < incrementsSessions pc) :
    s.mSessionCount + 1 < 2 ^ 32 := by
  have own : inPart uncounted v ≤ total (inPart uncounted) s.mSessionList := le_total (List.mem_of_getElem? here)
  have one := increments_or_decrements pc
  have count := accounts.sessions
  have range := sound.range
  omega

theorem Accounts.counts_off (accounts : Accounts s) (sound : Sound p s) (here : s.mSessionList[key]? = some v)
    (sessions : inPart uncounted v' + incrementsSessions pc = inPart uncounted v + decrementsSessions pc)
    (once : inPart uncounted v' ≤ 1) (off : 0 < decrementsSessions pc) : 0 < s.mSessionCount ∧ s.mSessionCount < 2 ^ 32 := by
  have counted : 0 < (s.mSessionList.filter fun v => inPart uncounted v = 0).length := by
    have one := increments_or_decrements pc
    have none : inPart uncounted v = 0 := by omega
    exact List.length_pos_of_mem (List.mem_filter.mpr ⟨List.mem_of_getElem? here, by simpa using none⟩)
  have whole := length_filter_add_total fun v inside => (sound.each inside).1
  have count := accounts.sessions
  have range := sound.range
  unfold NetServer.mMaxSessionCount at count range
  omega

theorem Accounts.counts_ended (accounts : Accounts s) (sound : Sound p s) (here : s.mSessionList[key]? = some v)
    (drops : inPart Session.ended v' = inPart Session.ended v + incrementsDisconnected pc) (once : inPart Session.ended v' ≤ 1)
    (drop : 0 < incrementsDisconnected pc) : s.mSessionDisconnectedCount + 1 < 2 ^ 64 := by
  have unended : 0 < (s.mSessionList.filter fun v => inPart Session.ended v = 0).length := by
    have none : inPart Session.ended v = 0 := by omega
    exact List.length_pos_of_mem (List.mem_filter.mpr ⟨List.mem_of_getElem? here, by simpa using none⟩)
  have whole := length_filter_add_total fun v inside => (sound.each inside).2.1
  have count := accounts.ended
  have range := sound.range
  unfold NetServer.mMaxSessionCount at count range
  omega

theorem Accounts.at {l : Session.Label} (accounts : Accounts s) (sound : Sound p s) (sound' : Sound p s') (h : step p s (.at key l) = some s') :
    Accounts s' := by
  have noaccept (count sock address : Nat) : l ≠ .accept count sock address := by
    rintro rfl
    cases h
  obtain ⟨v, v', w, here, taken, rfl, ⟨rfl, outside⟩ | ⟨i, ans, t, rfl, at_i, rfl⟩⟩ := step_at h
  · exact accounts.still here taken outside noaccept
  obtain ⟨_, run⟩ := sound.slots key v here
  have closing := Run.closing run
  have sep := Run.separate run
  obtain ⟨x, u, pc', at_i', advanced, is⟩ := step_thread taken
  obtain rfl := Option.some.inj (at_i.symm.trans at_i')
  have member := List.mem_of_getElem? at_i
  obtain ⟨list, accepted, -, opened⟩ := effect_same s v t.pc
  have sock : v'.acceptedSocket = v.acceptedSocket := by
    rewrite [is]
    exact (next_accepted advanced).2.1
  obtain ⟨sessions, drops, closed⟩ := next_accounts advanced fun _ => sep.counts.key_at_push member
  have sessions : inPart uncounted v' + incrementsSessions t.pc = inPart uncounted v + decrementsSessions t.pc := by
    rewrite [is]
    exact inPart_moved _ _ at_i sessions
  have drops : inPart Session.ended v' = inPart Session.ended v + incrementsDisconnected t.pc := by
    rewrite [is]
    exact inPart_moved _ 0 at_i drops
  have closed : inPart socketless v' = inPart socketless v + closesSocket t.pc := by
    rewrite [is]
    exact inPart_moved _ 0 at_i closed
  obtain ⟨once, once', one⟩ := sound'.put_each here list
  obtain ⟨counted, disconnected, closes_⟩ := effect_counts s v t.pc (accounts.counts_on sound here sessions)
    (accounts.counts_off sound here sessions once) (accounts.counts_ended sound here drops once')
  apply accounts.put here list
  case sessions => omega
  case ended =>
    rw [accepted]
    omega
  case sockets =>
    intro socket
    rw [closes_ socket, opened]
    by_cases closing_ : 0 < closesSocket t.pc
    · have unclosed : 0 < unclosed t.pc := by
        revert closing_
        cases t.pc <;> simp [closesSocket, unclosed]
      have own := closing t member unclosed
      have held : holds socket v = if v.acceptedSocket = socket then 1 else 0 := by
        have none : inPart socketless v = 0 := by omega
        simp only [holds, none, true_and]
      have given : holds socket v' = 0 := if_neg fun is => by omega
      rw [own]
      simp only [closing_, true_and]
      omega
    · have same : holds socket v' = holds socket v := by
        unfold holds
        rw [closed, sock, Nat.eq_zero_of_not_pos closing_, Nat.add_zero]
      rw [if_neg fun is => closing_ is.1, same, Nat.add_zero]

theorem run_accounts (run : Run (server p) (fun s l => FewEach p s l ∧ Obtained p s l) tr s) : Accounts s := by
  refine run.invariant (I := fun _ s => Accounts s) (fun s started => .init started) fun tr s l s' before accounts proper h => ?_
  have sound := run_sound before
  have sound' := run_sound (before.step proper h)
  cases l with
  | accept address => exact accounts.accept sound proper.2 h
  | call request sessionID => exact accounts.call h
  | «at» key l => exact accounts.at sound sound' h

theorem total_holds (sock : Nat) (l : List Slot) :
    total (holds sock) l = ((l.filter fun v => inPart socketless v = 0).map Slot.acceptedSocket).count sock := by
  induction l with
  | nil => rfl
  | cons v l ih =>
    rw [List.filter_cons]
    simp only [total, List.map_cons, List.sum_cons] at ih ⊢
    by_cases none : inPart socketless v = 0
    · rw [if_pos (by simpa using none), List.map_cons, List.count_cons, ih]
      simp only [holds, none, true_and, beq_iff_eq]
      omega
    · rw [if_neg (by simpa using none), ih]
      simp [holds, none]

/-- At any time `mSessionCount` is the number of slots whose key is in use, less those that an accept thread has not counted
yet or a release has counted off; `mSessionAcceptedCount` is that of the sessions ended and of those that no release has
counted as ended; and the sockets of all sessions are those closed, each once, and those of the slots whose session no release
has closed. -/
theorem counters_add_up (run : Run (server p) (fun s l => FewEach p s l ∧ Obtained p s l) tr s) :
    s.mSessionCount = (s.mSessionList.filter fun v => inPart uncounted v = 0).length ∧
      s.mSessionAcceptedCount = s.mSessionDisconnectedCount + (s.mSessionList.filter fun v => inPart ended v = 0).length ∧
      (s.closed ++ (s.mSessionList.filter fun v => inPart socketless v = 0).map Slot.acceptedSocket).Perm (s.opened.map Prod.snd) ∧
      s.closed.Nodup := by
  have sound := run_sound run
  obtain ⟨sessions, drops, sockets⟩ := run_accounts run
  have counted := length_filter_add_total (w := inPart uncounted) fun v inside => (sound.each inside).1
  have ended := length_filter_add_total (w := inPart ended) fun v inside => (sound.each inside).2.1
  unfold NetServer.mMaxSessionCount at sessions drops
  have all : (s.closed ++ (s.mSessionList.filter fun v => inPart socketless v = 0).map Slot.acceptedSocket).Perm (s.opened.map Prod.snd) := by
    refine List.perm_iff_count.mpr fun sock => ?_
    rw [List.count_append, ← total_holds]
    exact sockets sock
  have once : (s.opened.map Prod.snd).Nodup := by
    rw [List.Nodup, List.pairwise_map]
    exact sound.opened.2.imp fun apart => Nat.ne_of_lt apart.2
  refine ⟨by omega, by omega, all, ?_⟩
  exact (List.nodup_append.mp (all.nodup_iff.mpr once)).1

theorem one_session_adds_up : ∃ (tr : List (NetServer × Label)) (s : NetServer), tr.map Prod.snd = onePacket ∧
    s.mSessionCount = 0 ∧ s.mSessionAcceptedCount = s.mSessionDisconnectedCount ∧ s.closed.Perm (s.opened.map Prod.snd) := by
  have along : Along (server plainServer) (fun s l => FewEach plainServer s l ∧ Obtained plainServer s l) freshServer onePacket := by decide +kernel
  obtain ⟨s, reached, run⟩ := Run.along (.init freshServer_started) along
  have facts : (exec (server plainServer) freshServer onePacket).map (fun s =>
      ((s.mSessionList.filter fun v => inPart uncounted v = 0).length, (s.mSessionList.filter fun v => inPart ended v = 0).length,
        (s.mSessionList.filter fun v => inPart socketless v = 0).length)) = some (0, 0, 0) := by decide +kernel
  rw [reached] at facts
  simp only [Option.map_some, Option.some.injEq, Prod.mk.injEq] at facts
  obtain ⟨none, ended, shut⟩ := facts
  obtain ⟨sessions, accepted, sockets, -⟩ := counters_add_up run
  rw [List.eq_nil_of_length_eq_zero shut, List.map_nil, List.append_nil] at sockets
  exact ⟨_, s, trace_labels reached, sessions.trans none, by omega, sockets⟩

end WanNet.Server
