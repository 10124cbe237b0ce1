import WanNet.NetClient.Sockets

/-!
How many sockets a client holds open when it connects again and again.
-/

namespace WanNet.NetClient
open Transition Threads

/-- A `Connect` past its test that has not returned. -/
def Thread.connecting : Thread → Bool
  | .connect .testConnected | .connect (.returned _) => false
  | .connect _ => true
  | _ => false

/-- A recv thread that has not ended; closing its socket is the last thing it does. -/
def Thread.alive : Thread → Bool
  | .recvThread _ .returned _ => false
  | .recvThread _ _ _ => true
  | _ => false

/-- A `Connect` that finds the client not connected finds no other `Connect` in progress, and every
earlier recv thread has closed its socket. -/
def AfterClose (s : Client) : Label → Prop
  | .thread i _ =>
    match s.threads[i]? with
    | some (.connect .testConnected) => s.mbIsConnected = false → ∀ t ∈ s.threads, t.connecting = false ∧ t.alive = false
    | _ => True
  | _ => True

/-- `TryConnect` fails, or `_beginthreadex` does. -/
def Connect.fails : Connect → Answer → Bool
  | .tryConnect _, .success false | .startThread, .success false => true
  | _, _ => false

def Thread.fails (answer : Answer) : Thread → Bool
  | .connect pc => pc.fails answer
  | _ => false

/-- A `Connect` fails once it has created its socket. -/
def Fails (s : Client) : Label → Prop
  | .thread i answer => ((s.threads[i]?).elim false fun t => t.fails answer) = true
  | _ => False

/-- The sockets that were created and not closed: the one of the recv thread, if there is one. -/
def OneSocket (s : Client) : Prop := s.sockets.length = if ∃ t ∈ s.threads, t.alive = true then 1 else 0

theorem afterClose_iff (s : Client) (i : Nat) (answer : Answer) : AfterClose s (.thread i answer) ↔
    (s.threads[i]? = some (.connect .testConnected) → s.mbIsConnected = false → ∀ t ∈ s.threads, t.connecting = false ∧ t.alive = false) := by
  simp only [AfterClose]
  split
  next same => simp [same]
  next other => exact ⟨fun _ same => absurd same other, fun _ => trivial⟩

instance (s : Client) (l : Label) : Decidable (AfterClose s l) :=
  match l with
  | .connect | .disconnect => .isTrue trivial
  | .thread i answer => decidable_of_iff' _ (afterClose_iff s i answer)

instance (s : Client) (l : Label) : Decidable (Fails s l) :=
  match l with
  | .connect | .disconnect => .isFalse id
  | .thread i answer => inferInstanceAs (Decidable (((s.threads[i]?).elim false fun t => t.fails answer) = true))

/-- 1 for a thread that is on its way to a recv thread, or is one. -/
def Thread.working : Thread → Nat
  | .connect .createSocket | .connect (.writeSocket _) | .connect .readSocket | .connect (.tryConnect _) | .connect .startThread => 1
  | .recvThread _ .returned _ => 0
  | .recvThread _ _ _ => 1
  | _ => 0

/-- 1 for a thread with an open socket. -/
def Thread.holding : Thread → Nat
  | .connect .createSocket => 0
  | t => t.working

/-- `lost` sockets are open that no thread has. -/
structure Holding (s : Client) (lost : Nat) : Prop where
  serves : Serves s
  one : total Thread.working s.threads ≤ 1
  handles : (s.sockets.map Prod.fst).Nodup
  count : s.sockets.length = total Thread.holding s.threads + lost

variable {s u : Client} {t v : Thread} {i c h lost lost' : Nat} {l : Label} {answer : Answer} {tr : List (Client × Label)}

theorem working_of_quiet (connecting : t.connecting = false) (alive : t.alive = false) : t.working = 0 := by
  cases t with
  | connect pc =>
    cases pc with
    | testConnected | writeConnected | returned => rfl
    | _ => cases connecting
  | disconnect => rfl
  | recvThread c pc d =>
    cases pc with
    | returned => rfl
    | _ => cases alive

theorem relies_le_working (t : Thread) : t.relies ≤ t.working := by
  unfold Thread.relies
  split
  all_goals first | exact Nat.zero_le _ | exact Nat.le_refl _

theorem Holding.others (holding : Holding s lost) (at_i : s.threads[i]? = some t) (working : t.working = 1) {j : Nat} (other : j ≠ i)
    (at_j : s.threads[j]? = some v) : v.working = 0 := by
  have := add_le_total (w := Thread.working) at_i at_j other
  have := holding.one
  omega

theorem Holding.unused (holding : Holding s lost) (l : Label) : Unused s l := by
  unfold Unused
  split
  next i answer =>
    split
    next at_i =>
      intro t member
      obtain ⟨j, at_j⟩ := List.mem_iff_getElem?.mp member
      by_cases here : j = i
      · subst here
        obtain rfl := Option.some.inj (at_j.symm.trans at_i)
        rfl
      · have idle := holding.others at_i rfl here at_j
        exact Nat.le_zero.mp (idle ▸ relies_le_working t)
    next => trivial
  next => trivial

theorem length_close {sockets : List (Nat × Nat)} (handles : (sockets.map Prod.fst).Nodup) (open_ : sockets.lookup h = some c) :
    (sockets.filter fun x : Nat × Nat => x.1 ≠ h).length + 1 = sockets.length := by
  induction sockets with
  | nil => cases open_
  | cons x sockets ih =>
    obtain ⟨absent, distinct⟩ := List.nodup_cons.mp handles
    rw [List.lookup_cons] at open_
    by_cases here : x.1 = h
    · have kept : sockets.filter (fun x => x.1 ≠ h) = sockets := List.filter_eq_self.mpr fun y member => by
        simp only [ne_eq, decide_eq_true_eq]
        rintro rfl
        exact absent (here ▸ List.mem_map_of_mem member)
      rw [List.filter_cons_of_neg (by simpa using here), kept, List.length_cons]
    · have away : (h == x.1) = false := by simpa using Ne.symm here
      rw [away] at open_
      rw [List.filter_cons_of_pos (by simpa using here), List.length_cons, List.length_cons, ih distinct open_]

/-- A step that opens and closes nothing, and may leave a socket to a new thread or to nobody. -/
theorem Holding.keep {more : List Thread} (holding : Holding s lost) (at_i : s.threads[i]? = some t)
    (serves : Serves { u with threads := s.threads.set i v ++ more }) (sockets : u.sockets = s.sockets)
    (working : v.working + total Thread.working more ≤ t.working)
    (held : v.holding + total Thread.holding more + lost' = t.holding + lost) :
    Holding { u with threads := s.threads.set i v ++ more } lost' := by
  have moved := total_set (w := Thread.working) (b := v) at_i
  have passed := total_set (w := Thread.holding) (b := v) at_i
  have := holding.one
  have := holding.count
  refine ⟨serves, ?_, sockets ▸ holding.handles, ?_⟩
  · show total Thread.working (s.threads.set i v ++ more) ≤ 1
    rw [total_append]
    omega
  · show u.sockets.length = total Thread.holding (s.threads.set i v ++ more) + lost'
    rw [total_append, sockets]
    omega

theorem Holding.keep_one (holding : Holding s lost) (at_i : s.threads[i]? = some t) (serves : Serves { u with threads := s.threads.set i v })
    (sockets : u.sockets = s.sockets) (working : v.working ≤ t.working) (held : v.holding = t.holding) :
    Holding { u with threads := s.threads.set i v } lost := by
  have kept : Holding { u with threads := s.threads.set i v ++ [] } lost :=
    holding.keep at_i (by rw [List.append_nil]; exact serves) sockets working (by rw [held]; rfl)
  rwa [List.append_nil] at kept

theorem Holding.connect {pc pc' : Connect} {child : Option Thread} (holding : Holding s lost) (at_i : s.threads[i]? = some (.connect pc))
    (turn : pc = .testConnected → s.mbIsConnected = false → total Thread.working s.threads = 0)
    (h : connect s i pc answer = some (u, pc', child)) (serves : Serves { u with threads := s.threads.set i (.connect pc') ++ child.toList }) :
    Holding { u with threads := s.threads.set i (.connect pc') ++ child.toList } (lost + (pc.fails answer).toNat) := by
  cases pc with
  | testConnected =>
    cases answer with
    | none =>
      simp only [NetClient.connect, Option.some.injEq, Prod.mk.injEq] at h
      obtain ⟨rfl, is, rfl⟩ := h
      rcases Bool.eq_false_or_eq_true s.mbIsConnected with connected | connected
      · obtain rfl : .returned false = pc' := by simpa [connected] using is
        exact holding.keep at_i serves rfl (Nat.le_refl _) rfl
      · have nobody := turn rfl connected
        obtain rfl : .createSocket = pc' := by simpa [connected] using is
        have moved := total_set (w := Thread.working) (b := .connect .createSocket) at_i
        have passed := total_set (w := Thread.holding) (b := .connect .createSocket) at_i
        have : Thread.working (.connect .createSocket) = 1 := rfl
        have : Thread.working (.connect .testConnected) = 0 := rfl
        have : Thread.holding (.connect .createSocket) = 0 := rfl
        have : Thread.holding (.connect .testConnected) = 0 := rfl
        have := holding.count
        simp only [Option.toList_none, List.append_nil] at serves ⊢
        refine ⟨serves, ?_, holding.handles, ?_⟩
        · show total Thread.working (s.threads.set i (.connect .createSocket)) ≤ 1
          omega
        · show s.sockets.length = total Thread.holding (s.threads.set i (.connect .createSocket)) + (lost + 0)
          omega
    | _ => cases h
  | createSocket =>
    cases answer with
    | socket handle =>
      simp only [NetClient.connect] at h
      split at h
      next free =>
        obtain ⟨rfl, rfl, rfl⟩ : _ ∧ _ ∧ _ := by simpa using h
        have moved := total_set (w := Thread.working) (b := .connect (.writeSocket handle)) at_i
        have passed := total_set (w := Thread.holding) (b := .connect (.writeSocket handle)) at_i
        have : Thread.working (.connect (.writeSocket handle)) = 1 := rfl
        have : Thread.working (.connect .createSocket) = 1 := rfl
        have : Thread.holding (.connect (.writeSocket handle)) = 1 := rfl
        have : Thread.holding (.connect .createSocket) = 0 := rfl
        have := holding.one
        have := holding.count
        simp only [Option.toList_none, List.append_nil] at serves ⊢
        refine ⟨serves, ?_, List.nodup_cons.mpr ⟨fun member => ?_, holding.handles⟩, ?_⟩
        · show total Thread.working (s.threads.set i (.connect (.writeSocket handle))) ≤ 1
          omega
        · obtain ⟨x, open_, is⟩ := List.mem_map.mp member
          have := List.lookup_eq_none_iff.mp free x open_
          simp [is] at this
        · show s.sockets.length + 1 = total Thread.holding (s.threads.set i (.connect (.writeSocket handle))) + (lost + 0)
          omega
      next => cases h
    | _ => cases h
  | writeSocket | readSocket | writeConnected =>
    cases answer with
    | none =>
      obtain ⟨rfl, rfl, rfl⟩ : _ ∧ _ ∧ _ := by simpa [NetClient.connect] using h
      exact holding.keep at_i serves rfl (Nat.le_refl _) rfl
    | _ => cases h
  | tryConnect socket =>
    cases answer with
    | success ok =>
      simp only [NetClient.connect, Option.some.injEq, Prod.mk.injEq] at h
      obtain ⟨rfl, rfl, rfl⟩ := h
      cases ok with
      | true => exact holding.keep at_i serves rfl (Nat.le_refl _) rfl
      | false => exact holding.keep at_i serves rfl (Nat.zero_le _) (by show 0 + 0 + (lost + 1) = 1 + lost; omega)
    | _ => cases h
  | startThread =>
    cases answer with
    | success ok =>
      simp only [NetClient.connect, Option.some.injEq, Prod.mk.injEq] at h
      obtain ⟨rfl, rfl, rfl⟩ := h
      cases ok with
      | true => exact holding.keep at_i serves rfl (Nat.le_refl _) rfl
      | false => exact holding.keep at_i serves rfl (Nat.zero_le _) (by show 0 + 0 + (lost + 1) = 1 + lost; omega)
    | _ => cases h
  | returned => cases h

theorem Holding.disconnect {pc pc' : Disconnect} (holding : Holding s lost) (at_i : s.threads[i]? = some (.disconnect pc))
    (h : disconnect s pc answer = some (u, pc')) (serves : Serves { u with threads := s.threads.set i (.disconnect pc') }) :
    Holding { u with threads := s.threads.set i (.disconnect pc') } lost := by
  have sockets : u.sockets = s.sockets := by
    cases pc
    all_goals
      cases answer
      all_goals
        first
          | cases h; done
          | cases h; rfl
  exact holding.keep_one at_i serves sockets (Nat.le_refl _) rfl

theorem Holding.recvThread {pc pc' : Recv} {d d' : List (List UInt8)} (holding : Holding s lost)
    (at_i : s.threads[i]? = some (.recvThread c pc d)) (h : recvThread s pc answer = some (u, pc', d'))
    (serves : Serves { u with threads := s.threads.set i (.recvThread c pc' (d ++ d')) }) :
    Holding { u with threads := s.threads.set i (.recvThread c pc' (d ++ d')) } lost := by
  cases pc with
  | closeSocket socket =>
    cases answer with
    | none =>
      cases h
      have own := holding.serves.own i _ c socket at_i rfl rfl
      have closed := length_close holding.handles own
      have moved := total_set (w := Thread.working) (b := .recvThread c .returned (d ++ [])) at_i
      have passed := total_set (w := Thread.holding) (b := .recvThread c .returned (d ++ [])) at_i
      have : Thread.working (.recvThread c .returned (d ++ [])) = 0 := rfl
      have : Thread.holding (.recvThread c .returned (d ++ [])) = 0 := rfl
      have : Thread.holding (.recvThread c (.closeSocket socket) d) = 1 := rfl
      have := holding.one
      have := holding.count
      refine ⟨serves, ?_, ?_, ?_⟩
      · show total Thread.working (s.threads.set i (.recvThread c .returned (d ++ []))) ≤ 1
        omega
      · exact holding.handles.sublist (List.filter_sublist.map _)
      · show (s.sockets.filter fun x => x.1 ≠ socket).length = total Thread.holding (s.threads.set i (.recvThread c .returned (d ++ []))) + lost
        omega
    | _ => cases h
  | recv socket =>
    cases answer with
    | bytes data =>
      simp only [NetClient.recvThread] at h
      split at h
      · cases h
        exact holding.keep_one at_i serves rfl (Nat.le_refl _) rfl
      · split at h
        · cases h
        · split at h
          · cases h
            exact holding.keep_one at_i serves rfl (Nat.le_refl _) rfl
          · cases h
    | _ => cases h
  | readSocket | backup | writeConnected | onDisconnect =>
    cases answer with
    | none =>
      cases h
      exact holding.keep_one at_i serves rfl (Nat.le_refl _) rfl
    | _ => cases h
  | returned => cases h

theorem Holding.step (holding : Holding s lost) (turn : AfterClose s l) (h : client.step s l = some u) :
    ∃ lost', Holding u lost' ∧ (lost' = 0 ↔ lost = 0 ∧ ¬ Fails s l) := by
  have serves := holding.serves.step (holding.unused l) h
  have h : NetClient.step s l = some u := h
  cases l with
  | connect | disconnect =>
    simp only [NetClient.step] at h
    split at h
    · cases h
    · obtain rfl := Option.some.inj h
      refine ⟨lost, ⟨serves, ?_, holding.handles, ?_⟩, by simp [Fails]⟩
      · rw [total_append_one]
        exact holding.one
      · rw [total_append_one]
        exact holding.count
  | thread i answer =>
    simp only [NetClient.step] at h
    split at h
    · cases h
    cases at_i : s.threads[i]? with
    | none => simp [at_i] at h
    | some t =>
      cases t with
      | connect pc =>
        simp only [at_i] at h
        obtain ⟨⟨u, pc', child⟩, moved, rfl⟩ := Option.map_eq_some_iff.mp h
        refine ⟨_, holding.connect at_i (fun first down => ?_) moved serves, ?_⟩
        · subst first
          simp only [AfterClose, at_i] at turn
          exact total_eq_zero.mpr fun t member => working_of_quiet (turn down t member).1 (turn down t member).2
        · simp only [Fails, at_i, Option.elim_some, Thread.fails]
          cases pc.fails answer <;> simp
      | disconnect pc =>
        simp only [at_i] at h
        obtain ⟨⟨u, pc'⟩, moved, rfl⟩ := Option.map_eq_some_iff.mp h
        exact ⟨lost, holding.disconnect at_i moved serves, by simp [Fails, at_i, Thread.fails]⟩
      | recvThread c pc d =>
        simp only [at_i] at h
        obtain ⟨⟨u, pc', d'⟩, moved, rfl⟩ := Option.map_eq_some_iff.mp h
        exact ⟨lost, holding.recvThread at_i moved serves, by simp [Fails, at_i, Thread.fails]⟩

theorem run_holding (run : Run client AfterClose tr s) : ∃ lost, Holding s lost ∧ (lost = 0 ↔ ∀ u l, (u, l) ∈ tr → ¬ Fails u l) := by
  refine run.invariant (I := fun tr s => ∃ lost, Holding s lost ∧ (lost = 0 ↔ ∀ u l, (u, l) ∈ tr → ¬ Fails u l)) (fun s start => ?_) ?_
  · obtain ⟨mem, rfl⟩ := start
    exact ⟨0, ⟨.init fun i t => by simp, Nat.zero_le _, List.nodup_nil, rfl⟩, by simp⟩
  rintro tr s l u run ⟨lost, holding, none⟩ turn h
  obtain ⟨lost', holding', more⟩ := holding.step turn h
  refine ⟨lost', holding', ?_⟩
  rw [more, none]
  constructor
  · rintro ⟨before, now⟩ x k member
    rcases List.mem_append.mp member with old | last
    · exact before x k old
    · obtain ⟨rfl, rfl⟩ := Prod.mk.inj (List.mem_singleton.mp last)
      exact now
  · exact fun all => ⟨fun x k member => all x k (List.mem_append_left _ member), all s l (by simp)⟩

/-- Between the calls of `Connect`, the client holds the socket of its recv thread and no other, as long as
no `Connect` has failed once it had created its socket. -/
theorem one_socket_iff (run : Run client AfterClose tr s) (between : ∀ t ∈ s.threads, t.connecting = false) :
    OneSocket s ↔ ∀ u l, (u, l) ∈ tr → ¬ Fails u l := by
  obtain ⟨lost, holding, none⟩ := run_holding run
  have held (t : Thread) (member : t ∈ s.threads) : t.holding = t.working ∧ (t.working = 0 ↔ t.alive = false) := by
    have idle := between t member
    cases t with
    | connect pc =>
      cases pc with
      | testConnected | returned => exact ⟨rfl, by simp [Thread.working, Thread.alive]⟩
      | _ => cases idle
    | disconnect pc => exact ⟨rfl, by simp [Thread.working, Thread.alive]⟩
    | recvThread c pc d => cases pc <;> exact ⟨rfl, by simp [Thread.working, Thread.alive]⟩
  have count := holding.count
  have one := holding.one
  have same : total Thread.holding s.threads = total Thread.working s.threads :=
    congrArg List.sum (List.map_congr_left fun t member => (held t member).1)
  have alive : (∃ t ∈ s.threads, t.alive = true) ↔ 0 < total Thread.working s.threads := by
    constructor
    · rintro ⟨t, member, lives⟩
      refine Nat.lt_of_lt_of_le (Nat.pos_of_ne_zero fun zero => ?_) (le_total member)
      rw [(held t member).2.mp zero] at lives
      cases lives
    · intro pos
      obtain ⟨t, member, works⟩ := exists_of_total_pos pos
      refine ⟨t, member, Bool.eq_true_of_not_eq_false fun dead => ?_⟩
      have := (held t member).2.mpr dead
      omega
  rw [← none]
  unfold OneSocket
  simp only [alive]
  split <;> omega

/-- A client that connects, loses its connection and connects again. -/
theorem reconnecting_holds_one_socket : ∃ (tr : List (Client × Label)) (s : Client), tr.map Prod.snd =
      [connects 0 8, moves 1 [.none, .bytes [], .none, .none, .none, .none], connects 2 12].flatten ∧
    s.sockets = [(12, 2)] ∧ OneSocket s := by
  have along : Along client (fun s l => AfterClose s l ∧ ¬ Fails s l) newClient
      [connects 0 8, moves 1 [.none, .bytes [], .none, .none, .none, .none], connects 2 12].flatten := by decide +kernel
  obtain ⟨s, reached, run⟩ := Run.along (.init newClient_init) along
  have facts : (exec client newClient
      [connects 0 8, moves 1 [.none, .bytes [], .none, .none, .none, .none], connects 2 12].flatten).map (fun s => (s.threads, s.sockets)) =
      some ([.connect (.returned true), .recvThread 0 .returned [], .connect (.returned true), .recvThread 2 .readSocket []], [(12, 2)]) := by
    decide +kernel
  rw [reached] at facts
  simp only [Option.map_some, Option.some.injEq, Prod.mk.injEq] at facts
  obtain ⟨threads, sockets⟩ := facts
  have served := run.mono (D := AfterClose) fun _ _ both => both.1
  refine ⟨_, s, trace_labels reached, sockets, (one_socket_iff served ?_).mpr fun u l member => ?_⟩
  · simp [threads, Thread.connecting]
  · obtain ⟨-, -, -, both, -⟩ := run.mem member
    exact both.2

/-- A `Connect` that is refused. -/
theorem refused_connect_keeps_socket : ∃ tr s, Run client AfterClose tr s ∧ (∀ t ∈ s.threads, t.connecting = false) ∧ ¬ OneSocket s := by
  have along : Along client AfterClose newClient
      (.connect :: moves 0 [.none, .socket 8, .none, .none, .success false]) := by decide +kernel
  obtain ⟨s, reached, run⟩ := Run.along (.init newClient_init) along
  have facts : (exec client newClient (.connect :: moves 0 [.none, .socket 8, .none, .none, .success false])).map
      (fun s => (s.threads, s.sockets)) = some ([.connect (.returned false)], [(8, 0)]) := by decide +kernel
  rw [reached] at facts
  simp only [Option.map_some, Option.some.injEq, Prod.mk.injEq] at facts
  obtain ⟨threads, sockets⟩ := facts
  exact ⟨_, s, run, by simp [threads, Thread.connecting], by simp [OneSocket, threads, sockets, Thread.alive]⟩

end WanNet.NetClient
