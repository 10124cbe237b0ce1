import WanNet.Lib.Threads
import WanNet.NetClient.Model

/-!
Which socket a recv thread uses.
-/

namespace WanNet.NetClient
open Transition Threads

/-- The call of `Connect` whose socket the `i`-th thread is there for. -/
def Thread.connection (i : Nat) : Thread → Option Nat
  | .connect (.writeConnected) | .connect (.returned _) => none
  | .connect _ => some i
  | .disconnect _ => none
  | .recvThread _ .returned _ => none
  | .recvThread connection _ _ => some connection

/-- The handle that a thread has, or takes from `mSocket` when it needs it. -/
def Thread.handle (mSocket : Nat) : Thread → Option Nat
  | .connect (.writeSocket socket) => some socket
  | .connect .readSocket | .connect (.tryConnect _) | .connect .startThread => some mSocket
  | .recvThread _ .readSocket _ | .recvThread _ .backup _ => some mSocket
  | .recvThread _ (.recv socket) _ => some socket
  | .recvThread _ (.writeConnected socketBackup) _ | .recvThread _ (.onDisconnect socketBackup) _
  | .recvThread _ (.closeSocket socketBackup) _ => some socketBackup
  | _ => none

/-- 1 for a thread that goes by what `mSocket` holds: a `Connect` from its write on, until it has started
its recv thread, and a recv thread until it has taken its `socketBackup`. -/
def Thread.relies : Thread → Nat
  | .connect .readSocket | .connect (.tryConnect _) | .connect .startThread => 1
  | .recvThread _ .readSocket _ | .recvThread _ (.recv _) _ | .recvThread _ .backup _ => 1
  | _ => 0

/-- `Connect` writes `mSocket` when no thread relies on it any more. -/
def Unused (s : Client) : Label → Prop
  | .thread i _ =>
    match s.threads[i]? with
    | some (.connect (.writeSocket _)) => ∀ t ∈ s.threads, t.relies = 0
    | _ => True
  | _ => True

instance (s : Client) (l : Label) : Decidable (Unused s l) := by
  unfold Unused
  split
  · split <;> infer_instance
  · infer_instance

/-- A `recv` or `CloseSocket` of a recv thread is on the socket of the `Connect` that started it. -/
def OwnSocket (s : Client) : Label → Prop
  | .thread i _ =>
    match s.threads[i]? with
    | some (.recvThread connection (.recv socket) _) | some (.recvThread connection (.closeSocket socket) _) =>
      s.sockets.lookup socket = some connection
    | _ => True
  | _ => True

instance (s : Client) (l : Label) : Decidable (OwnSocket s l) := by
  unfold OwnSocket
  split
  · split <;> infer_instance
  · infer_instance

structure Serves (s : Client) : Prop where
  own : ∀ (i : Nat) (t : Thread) (c h : Nat), s.threads[i]? = some t → t.connection i = some c → t.handle s.mSocket = some h → s.sockets.lookup h = some c
  current : ∀ (i c h : Nat) d, s.threads[i]? = some (Thread.recvThread c (.recv h) d) → h = s.mSocket
  one : total Thread.relies s.threads ≤ 1
  distinct : ∀ (i j : Nat) (t v : Thread) (c : Nat), s.threads[i]? = some t → s.threads[j]? = some v → t.connection i = some c →
    v.connection j = some c → i = j
  made : ∀ (i : Nat) (t : Thread) (c : Nat), s.threads[i]? = some t → t.connection i = some c → c < s.threads.length

variable {s u : Client} {t v : Thread} {i j c h : Nat} {l : Label}

theorem handle_congr (idle : t.relies = 0) (m m' : Nat) : t.handle m = t.handle m' := by
  unfold Thread.relies at idle
  split at idle
  · cases idle
  · cases idle
  · cases idle
  · cases idle
  · cases idle
  · cases idle
  · unfold Thread.handle
    split <;> first | rfl | simp_all

theorem lookup_filter (sockets : List (Nat × Nat)) (other : h ≠ j) :
    (sockets.filter fun open_ => open_.1 ≠ j).lookup h = sockets.lookup h := by
  induction sockets with
  | nil => rfl
  | cons x sockets ih =>
    by_cases same : x.1 = j
    · have away : (h == x.1) = false := by simpa [same] using other
      rw [List.filter_cons_of_neg (by simpa using same), ih, List.lookup_cons, away]
    · rw [List.filter_cons_of_pos (by simpa using same), List.lookup_cons, List.lookup_cons, ih]

theorem Serves.move (inv : Serves s) (at_i : s.threads[i]? = some t) (connection : ∀ c, v.connection i = some c → t.connection i = some c)
    (one : total Thread.relies (s.threads.set i v) ≤ 1) (mSocket : u.mSocket = s.mSocket ∨ ∀ (j : Nat) (t : Thread), j ≠ i → s.threads[j]? = some t → t.relies = 0)
    (sockets : ∀ h c, t.connection i ≠ some c → s.sockets.lookup h = some c → u.sockets.lookup h = some c)
    (own : ∀ c h, v.connection i = some c → v.handle u.mSocket = some h → u.sockets.lookup h = some c)
    (current : ∀ c h d, v = .recvThread c (.recv h) d → h = u.mSocket) : Serves { u with threads := s.threads.set i v } := by
  have distinct (j k : Nat) (x y : Thread) (c : Nat) (at_j : (s.threads.set i v)[j]? = some x)
      (at_k : (s.threads.set i v)[k]? = some y) (hx : x.connection j = some c) (hy : y.connection k = some c) : j = k := by
    rcases at_set at_j with ⟨rfl, rfl⟩ | ⟨other, at_j⟩
    · rcases at_set at_k with ⟨rfl, rfl⟩ | ⟨other', at_k⟩
      · rfl
      · exact inv.distinct _ _ _ _ c at_i at_k (connection c hx) hy
    · rcases at_set at_k with ⟨rfl, rfl⟩ | ⟨other', at_k⟩
      · exact inv.distinct _ _ _ _ c ‹s.threads[j]? = some x› at_i hx (connection c hy)
      · exact inv.distinct _ _ _ _ c at_j at_k hx hy
  refine ⟨fun j x c h at_j hx hh => ?_, fun j c h d at_j => ?_, one, distinct, fun j x c at_j hx => ?_⟩
  · rcases at_set at_j with ⟨rfl, rfl⟩ | ⟨other, at_j⟩
    · exact own c h hx hh
    · refine sockets h c (fun same => other (inv.distinct j i x t c at_j at_i hx same)) (inv.own j x c h at_j hx ?_)
      rcases mSocket with same | idle
      · rw [← same]
        exact hh
      · rw [handle_congr (idle j x other at_j) s.mSocket u.mSocket]
        exact hh
  · rcases at_set at_j with ⟨rfl, is⟩ | ⟨other, at_j⟩
    · exact current c h d is.symm
    · rcases mSocket with same | idle
      · rw [show u.mSocket = _ from same]
        exact inv.current j c h d at_j
      · cases idle j _ other at_j
  · rw [List.length_set]
    rcases at_set at_j with ⟨rfl, rfl⟩ | ⟨other, at_j⟩
    · exact inv.made _ t c at_i (connection c hx)
    · exact inv.made j x c at_j hx

theorem Serves.append (inv : Serves s) (relies : t.relies + total Thread.relies s.threads ≤ 1)
    (connection : ∀ c, t.connection s.threads.length = some c →
      c ≤ s.threads.length ∧ ∀ (j : Nat) (x : Thread), s.threads[j]? = some x → x.connection j ≠ some c)
    (own : ∀ c h, t.connection s.threads.length = some c → t.handle s.mSocket = some h → s.sockets.lookup h = some c)
    (current : ∀ c h d, t ≠ .recvThread c (.recv h) d) : Serves { s with threads := s.threads ++ [t] } := by
  refine ⟨fun j x c h at_j hx hh => ?_, fun j c h d at_j => ?_, ?_, fun j k x y c at_j at_k hx hy => ?_, fun j x c at_j hx => ?_⟩
  · rcases at_append_one at_j with old | ⟨rfl, rfl⟩
    · exact inv.own j x c h old hx hh
    · exact own c h hx hh
  · rcases at_append_one at_j with old | ⟨rfl, is⟩
    · exact inv.current j c h d old
    · exact absurd is.symm (current c h d)
  · show total Thread.relies (s.threads ++ [t]) ≤ 1
    rw [total_append_one]
    omega
  · rcases at_append_one at_j with old | ⟨rfl, rfl⟩
    · rcases at_append_one at_k with old' | ⟨rfl, rfl⟩
      · exact inv.distinct j k x y c old old' hx hy
      · exact absurd hx ((connection c hy).2 j x old)
    · rcases at_append_one at_k with old' | ⟨rfl, rfl⟩
      · exact absurd hy ((connection c hx).2 k y old')
      · rfl
  · rw [List.length_append, List.length_singleton]
    rcases at_append_one at_j with old | ⟨rfl, rfl⟩
    · exact Nat.lt_succ_of_lt (inv.made j x c old hx)
    · exact Nat.lt_succ_of_le (connection c hx).1

theorem Serves.one_set (inv : Serves s) (at_i : s.threads[i]? = some t) (relies : v.relies ≤ t.relies) :
    total Thread.relies (s.threads.set i v) ≤ 1 := by
  have := total_set (w := Thread.relies) (b := v) at_i
  have := inv.one
  omega

theorem Serves.keep (inv : Serves s) (at_i : s.threads[i]? = some t) (same : u.mSocket = s.mSocket ∧ u.sockets = s.sockets)
    (relies : v.relies ≤ t.relies) (current : ∀ c h d, v = .recvThread c (.recv h) d → h = s.mSocket)
    (has : ∀ c h, v.connection i = some c → v.handle s.mSocket = some h →
      t.connection i = some c ∧ (t.handle s.mSocket = some h ∨ s.sockets.lookup h = some c))
    (connection : ∀ c, v.connection i = some c → t.connection i = some c) : Serves { u with threads := s.threads.set i v } := by
  obtain ⟨mSocket, sockets⟩ := same
  refine inv.move at_i connection (inv.one_set at_i relies) (.inl mSocket) (fun h c _ => by rw [sockets]; exact id) (fun c h hc hh => ?_) fun c h d is => ?_
  · rw [mSocket] at hh
    rw [sockets]
    obtain ⟨before, there | there⟩ := has c h hc hh
    · exact inv.own i t c h at_i before there
    · exact there
  · rw [mSocket]
    exact current c h d is

theorem Serves.connect {pc pc' : Connect} {child : Option Thread} (inv : Serves s) (unused : Unused s (.thread i answer))
    (at_i : s.threads[i]? = some (.connect pc)) (h : connect s i pc answer = some (u, pc', child)) :
    Serves { u with threads := s.threads.set i (.connect pc') ++ child.toList } := by
  have lt := (List.getElem?_eq_some_iff.mp at_i).1
  cases pc with
  | testConnected | tryConnect =>
    cases answer with
    | none | success =>
      first
        | cases h; done
        | simp only [NetClient.connect, Option.some.injEq, Prod.mk.injEq] at h
          obtain ⟨rfl, rfl, rfl⟩ := h
          simp only [Option.toList_none, List.append_nil]
          split
          all_goals
            refine inv.keep at_i ⟨rfl, rfl⟩ ?_ nofun (fun c h hc hh => ?_) fun c hc => ?_
            · first | exact Nat.le_refl _ | exact Nat.zero_le _
            · first | cases hh; done | cases hc; done | exact ⟨hc, .inl hh⟩
            · first | cases hc; done | exact hc
    | _ => cases h
  | createSocket =>
    cases answer with
    | socket handle =>
      simp only [NetClient.connect] at h
      split at h
      next free =>
        obtain ⟨rfl, rfl, rfl⟩ : _ ∧ _ ∧ _ := by simpa using h
        simp only [Option.toList_none, List.append_nil]
        refine inv.move (u := { s with sockets := (handle, i) :: s.sockets }) (v := .connect (.writeSocket handle)) at_i (fun _ => id)
          (inv.one_set at_i (Nat.le_refl _)) (.inl rfl) (fun h c _ open_ => ?_) (fun c h hc hh => ?_) nofun
        · have other : (h == handle) = false := by
            refine beq_false_of_ne ?_
            rintro rfl
            cases free.symm.trans open_
          rw [List.lookup_cons, other]
          exact open_
        · cases hc
          cases hh
          exact List.lookup_cons_self
      next => cases h
    | _ => cases h
  | writeSocket socket =>
    cases answer with
    | none =>
      obtain ⟨rfl, rfl, rfl⟩ : _ ∧ _ ∧ _ := by simpa [NetClient.connect] using h
      simp only [Unused, at_i] at unused
      simp only [Option.toList_none, List.append_nil]
      have idle : total Thread.relies s.threads = 0 := total_eq_zero.mpr unused
      refine inv.move (u := { s with mSocket := socket }) (v := .connect .readSocket) at_i (fun _ => id) ?_
        (.inr fun j t _ at_j => unused t (List.mem_of_getElem? at_j)) (fun _ _ _ => id) (fun c h hc hh => ?_) nofun
      · have := total_set (w := Thread.relies) (b := .connect .readSocket) at_i
        have : Thread.relies (.connect .readSocket) = 1 := rfl
        omega
      · exact inv.own i _ c h at_i hc hh
    | _ => cases h
  | readSocket =>
    cases answer with
    | none =>
      obtain ⟨rfl, rfl, rfl⟩ : _ ∧ _ ∧ _ := by simpa [NetClient.connect] using h
      simp only [Option.toList_none, List.append_nil]
      exact inv.keep at_i ⟨rfl, rfl⟩ (Nat.le_refl _) nofun (fun c h hc hh => ⟨hc, .inl hh⟩) fun _ => id
    | _ => cases h
  | startThread =>
    cases answer with
    | success ok =>
      simp only [NetClient.connect, Option.some.injEq, Prod.mk.injEq] at h
      obtain ⟨rfl, rfl, rfl⟩ := h
      have moved := inv.keep (u := s) (v := .connect .writeConnected) at_i ⟨rfl, rfl⟩ (Nat.zero_le _) nofun nofun nofun
      cases ok with
      | false =>
        simp only [Bool.false_eq_true, if_false, Option.toList_none, List.append_nil]
        exact moved
      | true =>
        have idle := total_set (w := Thread.relies) (b := .connect .writeConnected) at_i
        have : Thread.relies (.connect .startThread) = 1 := rfl
        have : Thread.relies (.connect .writeConnected) = 0 := rfl
        have := inv.one
        refine moved.append (t := .recvThread i .readSocket []) ?_ (fun c hc => ?_) (fun c h hc hh => ?_) nofun
        · show 1 + total Thread.relies (s.threads.set i (.connect .writeConnected)) ≤ 1
          omega
        · cases hc
          refine ⟨by rw [List.length_set]; exact Nat.le_of_lt lt, fun j x at_j same => ?_⟩
          rcases at_set at_j with ⟨rfl, rfl⟩ | ⟨other, at_j⟩
          · cases same
          · exact other (inv.distinct j i x _ i at_j at_i same rfl)
        · cases hc
          exact inv.own i _ i h at_i rfl hh
    | _ => cases h
  | writeConnected =>
    cases answer with
    | none =>
      obtain ⟨rfl, rfl, rfl⟩ : _ ∧ _ ∧ _ := by simpa [NetClient.connect] using h
      simp only [Option.toList_none, List.append_nil]
      exact inv.keep (u := { s with mbIsConnected := true }) at_i ⟨rfl, rfl⟩ (Nat.le_refl _) nofun nofun nofun
    | _ => cases h
  | returned => cases h

theorem Serves.disconnect {pc pc' : Disconnect} (inv : Serves s) (at_i : s.threads[i]? = some (.disconnect pc))
    (h : disconnect s pc answer = some (u, pc')) : Serves { u with threads := s.threads.set i (.disconnect pc') } := by
  have same : u.mSocket = s.mSocket ∧ u.sockets = s.sockets := by
    cases pc
    all_goals
      cases answer
      all_goals
        first
          | cases h; done
          | cases h; exact ⟨rfl, rfl⟩
  exact inv.keep at_i same (Nat.le_refl _) nofun nofun nofun

theorem Serves.recvThread {pc pc' : Recv} {d d' : List (List UInt8)} (inv : Serves s)
    (at_i : s.threads[i]? = some (.recvThread c pc d)) (h : recvThread s pc answer = some (u, pc', d')) :
    Serves { u with threads := s.threads.set i (.recvThread c pc' (d ++ d')) } := by
  cases pc with
  | readSocket =>
    cases answer with
    | none =>
      obtain ⟨rfl, rfl, rfl⟩ : _ ∧ _ ∧ _ := by simpa [NetClient.recvThread] using h
      refine inv.keep at_i ⟨rfl, rfl⟩ (Nat.le_refl _) (fun c h d is => ?_) (fun c h hc hh => ⟨hc, .inl hh⟩) fun _ => id
      cases is
      rfl
    | _ => cases h
  | recv socket =>
    have here := inv.current i c socket d at_i
    cases answer with
    | bytes data =>
      simp only [NetClient.recvThread] at h
      split at h
      · obtain ⟨rfl, rfl, rfl⟩ : _ ∧ _ ∧ _ := by simpa using h
        refine inv.keep at_i ⟨rfl, rfl⟩ (Nat.le_refl _) nofun (fun c h hc hh => ⟨hc, .inl ?_⟩) fun _ => id
        rw [← hh, here]
        rfl
      · split at h
        · cases h
        · split at h
          · cases h
            refine inv.keep at_i ⟨rfl, rfl⟩ (Nat.le_refl _) nofun (fun c h hc hh => ⟨hc, .inl ?_⟩) fun _ => id
            rw [← hh, here]
            rfl
          · cases h
    | _ => cases h
  | backup =>
    cases answer with
    | none =>
      obtain ⟨rfl, rfl, rfl⟩ : _ ∧ _ ∧ _ := by simpa [NetClient.recvThread] using h
      exact inv.keep at_i ⟨rfl, rfl⟩ (Nat.zero_le _) nofun (fun c h hc hh => ⟨hc, .inl hh⟩) fun _ => id
    | _ => cases h
  | writeConnected socket | onDisconnect socket =>
    cases answer with
    | none =>
      obtain ⟨rfl, rfl, rfl⟩ : _ ∧ _ ∧ _ := by simpa [NetClient.recvThread] using h
      exact inv.keep (v := .recvThread _ _ _) at_i ⟨rfl, rfl⟩ (Nat.le_refl _) nofun (fun c h hc hh => ⟨hc, .inl hh⟩) fun _ => id
    | _ => cases h
  | closeSocket socket =>
    cases answer with
    | none =>
      cases h
      have mine := inv.own i _ c socket at_i rfl rfl
      refine inv.move (u := { s with sockets := s.sockets.filter fun open_ => open_.1 ≠ socket }) (v := .recvThread c .returned (d ++ [])) at_i nofun
        (inv.one_set at_i (Nat.le_refl _)) (.inl rfl) (fun h c' other open_ => ?_) nofun nofun
      rw [lookup_filter]
      · exact open_
      · rintro rfl
        obtain rfl := Option.some.inj (mine.symm.trans open_)
        exact other rfl
    | _ => cases h
  | returned => cases h

theorem Serves.step (inv : Serves s) (unused : Unused s l) (h : client.step s l = some u) : Serves u := by
  have h : NetClient.step s l = some u := h
  cases l with
  | connect =>
    simp only [NetClient.step] at h
    split at h
    · cases h
    · obtain rfl := Option.some.inj h
      refine inv.append ?_ (fun c hc => ?_) nofun nofun
      · rw [show Thread.relies (.connect .testConnected) = 0 from rfl, Nat.zero_add]
        exact inv.one
      · cases hc
        exact ⟨Nat.le_refl _, fun j x at_j same => Nat.lt_irrefl _ (inv.made j x _ at_j same)⟩
  | disconnect =>
    simp only [NetClient.step] at h
    split at h
    · cases h
    · obtain rfl := Option.some.inj h
      refine inv.append ?_ nofun nofun nofun
      rw [show Thread.relies (.disconnect .testConnected) = 0 from rfl, Nat.zero_add]
      exact inv.one
  | thread i answer =>
    simp only [NetClient.step] at h
    split at h
    · cases h
    cases at_i : s.threads[i]? with
    | none => simp [at_i] at h
    | some t =>
      cases t with
      | connect pc =>
        simp only [at_i] at h
        obtain ⟨⟨u, pc', child⟩, moved, rfl⟩ := Option.map_eq_some_iff.mp h
        exact inv.connect unused at_i moved
      | disconnect pc =>
        simp only [at_i] at h
        obtain ⟨⟨u, pc'⟩, moved, rfl⟩ := Option.map_eq_some_iff.mp h
        exact inv.disconnect at_i moved
      | recvThread c pc d =>
        simp only [at_i] at h
        obtain ⟨⟨u, pc', d'⟩, moved, rfl⟩ := Option.map_eq_some_iff.mp h
        exact inv.recvThread at_i moved

theorem Serves.init {mRecvBuffer : RingBuffer UInt8} (none : ∀ (i : Nat) (t : Thread), ([] : List Thread)[i]? ≠ some t) :
    Serves { mRecvBuffer } :=
  ⟨fun i t _ _ at_i => absurd at_i (none i t), fun i _ _ _ at_i => absurd at_i (none i _), Nat.zero_le _,
    fun i _ t _ _ at_i => absurd at_i (none i t), fun i t _ at_i => absurd at_i (none i t)⟩

theorem run_serves (run : Run client Unused tr s) : Serves s := by
  refine run.invariant_state (I := Serves) (fun s start => ?_) fun s l u inv unused h => inv.step unused h
  obtain ⟨mem, rfl⟩ := start
  exact .init fun i t => by simp

theorem Serves.own_socket (inv : Serves s) (l : Label) : OwnSocket s l := by
  unfold OwnSocket
  split
  next i answer =>
    split
    · exact inv.own i _ _ _ ‹_› rfl rfl
    · exact inv.own i _ _ _ ‹_› rfl rfl
    · trivial
  · trivial

/-- As long as `mSocket` is overwritten only when no thread relies on it, every `recv` and every
`CloseSocket` of a recv thread is on its own socket. -/
theorem recv_threads_use_own_socket (run : Run client Unused tr s) : ∀ u l, (u, l) ∈ tr → OwnSocket u l := by
  intro u l member
  obtain ⟨earlier, t, before, -, -⟩ := run.mem member
  exact (run_serves before).own_socket l

def moves (i : Nat) (answers : List Answer) : List Label := answers.map (Label.thread i)

/-- The `i`-th call connects, on the socket with this handle, and starts its thread. -/
def connects (i handle : Nat) : List Label :=
  .connect :: moves i [.none, .socket handle, .none, .none, .success true, .success true, .none]

def newClient : Client := { mRecvBuffer := RingBuffer.recvBuffer }

theorem newClient_init : client.init newClient := ⟨_, rfl⟩

/-- A client that connects again inside `OnDisconnect`. -/
theorem reconnecting_keeps_own_socket : ∃ (tr : List (Client × Label)) (s : Client), tr.map Prod.snd =
      [connects 0 8, moves 1 [.none, .bytes [], .none, .none, .none], connects 2 12, moves 1 [.none],
        moves 3 [.none, .bytes [0x77]]].flatten ∧
    s.sockets = [(12, 2)] ∧ ∀ u l, (u, l) ∈ tr → OwnSocket u l := by
  have along : Along client Unused newClient [connects 0 8, moves 1 [.none, .bytes [], .none, .none, .none], connects 2 12,
      moves 1 [.none], moves 3 [.none, .bytes [0x77]]].flatten := by decide +kernel
  obtain ⟨s, reached, run⟩ := Run.along (.init newClient_init) along
  have facts : (exec client newClient [connects 0 8, moves 1 [.none, .bytes [], .none, .none, .none], connects 2 12,
      moves 1 [.none], moves 3 [.none, .bytes [0x77]]].flatten).map Client.sockets = some [(12, 2)] := by decide +kernel
  rw [reached] at facts
  exact ⟨_, s, trace_labels reached, Option.some.inj facts, recv_threads_use_own_socket run⟩

/-- A call of `Disconnect`, and another of `Connect` before the recv thread has seen the end of its
stream: it closes the new socket. -/
theorem early_connect_loses_socket : ∃ tr s, Run client Free tr s ∧ ∃ u l, (u, l) ∈ tr ∧ ¬ OwnSocket u l := by
  have along : Along client Free newClient [connects 0 8, moves 1 [.none], .disconnect :: moves 2 [.none, .none, .none, .none],
      connects 3 12, moves 1 [.bytes [], .none, .none, .none]].flatten := by decide +kernel
  obtain ⟨s, reached, run⟩ := Run.along (.init newClient_init) along
  have facts : (exec client newClient [connects 0 8, moves 1 [.none], .disconnect :: moves 2 [.none, .none, .none, .none],
      connects 3 12, moves 1 [.bytes [], .none, .none, .none]].flatten).map (fun s =>
        (s.died, s.threads[1]?, s.sockets)) = some (false, some (.recvThread 0 (.closeSocket 12) []), [(12, 3), (8, 0)]) := by
    decide +kernel
  rw [reached] at facts
  simp only [Option.map_some, Option.some.injEq, Prod.mk.injEq] at facts
  obtain ⟨alive, closing, sockets⟩ := facts
  have closes : ∃ s', client.step s (.thread 1 .none) = some s' := by simp [client, step, recvThread, alive, closing]
  obtain ⟨s', closes⟩ := closes
  refine ⟨_, s', run.step trivial closes, s, .thread 1 .none, List.mem_append_right _ (.head _), ?_⟩
  simp [OwnSocket, closing, sockets]

end WanNet.NetClient
