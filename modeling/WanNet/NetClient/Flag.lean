import WanNet.NetClient.Sockets

/-!
What `mbIsConnected` says when every recv thread has ended.
-/

namespace WanNet.NetClient
open Transition Threads

/-- A recv thread that has still to write `mbIsConnected = false`. -/
def Thread.clears : Thread → Bool
  | .recvThread _ .readSocket _ | .recvThread _ (.recv _) _ | .recvThread _ .backup _ | .recvThread _ (.writeConnected _) _ => true
  | _ => false

/-- No `Connect` in progress and no recv thread that has not ended. -/
def Thread.quiet : Thread → Bool
  | .connect (.returned _) | .disconnect _ | .recvThread _ .returned _ => true
  | _ => false

/-- `Connect` writes `mbIsConnected = true` before the last recv thread has written `false`. -/
def InTime (s : Client) : Label → Prop
  | .thread i _ =>
    match s.threads[i]? with
    | some (.connect .writeConnected) => ∃ t ∈ s.threads, t.clears = true
    | _ => True
  | _ => True

theorem inTime_iff (s : Client) (i : Nat) (answer : Answer) : InTime s (.thread i answer) ↔
    (s.threads[i]? = some (.connect .writeConnected) → ∃ t ∈ s.threads, t.clears = true) := by
  simp only [InTime]
  split
  next same => simp [same]
  next other => exact ⟨fun _ same => absurd same other, fun _ => trivial⟩

instance (s : Client) (l : Label) : Decidable (InTime s l) :=
  match l with
  | .connect | .disconnect => .isTrue trivial
  | .thread i answer => decidable_of_iff' _ (inTime_iff s i answer)

def Guarded (s : Client) : Prop := s.mbIsConnected = true → ∃ t ∈ s.threads, t.clears = true

variable {s u : Client} {t v : Thread} {i c : Nat} {l : Label} {answer : Answer} {tr : List (Client × Label)}

theorem clears_set (more : List Thread) (at_i : s.threads[i]? = some t) (keeps : t.clears = true → v.clears = true)
    (some_clears : ∃ x ∈ s.threads, x.clears = true) : ∃ x ∈ s.threads.set i v ++ more, x.clears = true := by
  obtain ⟨x, member, clears⟩ := some_clears
  obtain ⟨j, at_j⟩ := List.mem_iff_getElem?.mp member
  have lt := (List.getElem?_eq_some_iff.mp at_i).1
  by_cases here : j = i
  · subst here
    obtain rfl : t = x := Option.some.inj (at_i.symm.trans at_j)
    exact ⟨v, List.mem_append_left _ (List.mem_set lt v), keeps clears⟩
  · have still : (s.threads.set i v)[j]? = some x := by rw [List.getElem?_set_ne (Ne.symm here)]; exact at_j
    exact ⟨x, List.mem_append_left _ (List.mem_of_getElem? still), clears⟩

theorem connect_flag {pc pc' : Connect} {child : Option Thread} (h : connect s i pc answer = some (u, pc', child)) :
    u.mbIsConnected = s.mbIsConnected ∨ pc = .writeConnected := by
  cases pc
  case writeConnected => exact .inr rfl
  all_goals
    cases answer
    all_goals first
      | cases h; done
      | (simp only [connect, Option.some.injEq, Prod.mk.injEq, Option.ite_none_right_eq_some] at h
         obtain ⟨-, rfl, -, -⟩ := h
         exact .inl rfl)
      | (simp only [connect, Option.some.injEq, Prod.mk.injEq] at h
         obtain ⟨rfl, -, -⟩ := h
         exact .inl rfl)

theorem disconnect_flag {pc pc' : Disconnect} (h : disconnect s pc answer = some (u, pc')) :
    u.mbIsConnected = s.mbIsConnected ∨ u.mbIsConnected = false := by
  cases pc
  all_goals
    cases answer
    all_goals first
      | cases h; done
      | (cases h
         first
           | exact .inl rfl
           | exact .inr rfl)

/-- A recv thread is going to clear the flag until it does. -/
theorem recvThread_flag {pc pc' : Recv} {d d' : List (List UInt8)} (h : recvThread s pc answer = some (u, pc', d')) :
    u.mbIsConnected = false ∨ (u.mbIsConnected = s.mbIsConnected ∧
      ((Thread.recvThread c pc d).clears = true → (Thread.recvThread c pc' (d ++ d')).clears = true)) := by
  cases pc
  case recv socket =>
    cases answer <;> simp only [recvThread, reduceCtorEq] at h
    split at h
    · cases h
      exact .inr ⟨rfl, fun _ => rfl⟩
    · split at h
      · cases h
      · split at h
        · cases h
          exact .inr ⟨rfl, fun _ => rfl⟩
        · cases h
  case writeConnected socketBackup =>
    cases answer <;> simp only [recvThread, reduceCtorEq, Option.some.injEq, Prod.mk.injEq] at h
    obtain ⟨rfl, -, -⟩ := h
    exact .inl rfl
  all_goals
    cases answer
    all_goals first
      | cases h; done
      | (cases h
         first
           | exact .inr ⟨rfl, fun _ => rfl⟩
           | exact .inr ⟨rfl, fun clears => by cases clears⟩)

theorem Guarded.step (guarded : Guarded s) (timely : InTime s l) (h : client.step s l = some u) : Guarded u := by
  have h : NetClient.step s l = some u := h
  cases l with
  | connect | disconnect =>
    simp only [NetClient.step] at h
    split at h
    · cases h
    · obtain rfl := Option.some.inj h
      intro flag
      obtain ⟨t, member, clears⟩ := guarded flag
      exact ⟨t, List.mem_append_left _ member, clears⟩
  | thread i answer =>
    simp only [NetClient.step] at h
    split at h
    · cases h
    cases at_i : s.threads[i]? with
    | none => simp [at_i] at h
    | some t =>
      cases t with
      | connect pc =>
        simp only [at_i] at h
        obtain ⟨⟨w, pc', child⟩, moved, rfl⟩ := Option.map_eq_some_iff.mp h
        intro flag
        apply clears_set _ at_i (fun clears => by cases clears)
        rcases connect_flag moved with same | rfl
        · exact guarded (same ▸ flag)
        · simpa [InTime, at_i] using timely
      | disconnect pc =>
        simp only [at_i] at h
        obtain ⟨⟨w, pc'⟩, moved, rfl⟩ := Option.map_eq_some_iff.mp h
        intro flag
        rcases disconnect_flag moved with same | down
        · simpa using clears_set [] at_i (fun clears => by cases clears) (guarded (same ▸ flag))
        · exact absurd flag (by simp [down])
      | recvThread c pc d =>
        simp only [at_i] at h
        obtain ⟨⟨w, pc', d'⟩, moved, rfl⟩ := Option.map_eq_some_iff.mp h
        intro flag
        rcases recvThread_flag (c := c) (d := d) moved with down | ⟨same, clears⟩
        · exact absurd flag (by simp [down])
        · simpa using clears_set [] at_i clears (guarded (same ▸ flag))

/-- As long as no `Connect` writes `true` behind the last `false`, a client whose calls of `Connect`
have returned and whose recv threads have ended is not connected, and can connect again. -/
theorem flag_down_when_quiet (run : Run client InTime tr s) (quiet : ∀ t ∈ s.threads, t.quiet = true) :
    s.mbIsConnected = false := by
  have guarded : Guarded s := by
    refine run.invariant_state (I := Guarded) (fun s start => ?_) fun s l u held timely h => held.step timely h
    obtain ⟨mem, rfl⟩ := start
    intro flag
    cases flag
  cases flag : s.mbIsConnected with
  | false => rfl
  | true =>
    obtain ⟨t, member, clears⟩ := guarded flag
    have still := quiet t member
    unfold Thread.clears at clears
    split at clears
    all_goals first
      | cases still
      | cases clears

/-- A connection that the peer closes after `Connect` has returned. -/
theorem flag_down_after_close : ∃ (tr : List (Client × Label)) (s : Client), tr.map Prod.snd =
      (connects 0 8 ++ moves 1 [.none, .bytes [], .none, .none, .none, .none]) ∧ s.sockets = [] ∧ s.mbIsConnected = false := by
  have along : Along client InTime newClient (connects 0 8 ++ moves 1 [.none, .bytes [], .none, .none, .none, .none]) := by
    decide +kernel
  obtain ⟨s, reached, run⟩ := Run.along (.init newClient_init) along
  have facts : (exec client newClient (connects 0 8 ++ moves 1 [.none, .bytes [], .none, .none, .none, .none])).map
      (fun s => (s.sockets, decide (∀ t ∈ s.threads, t.quiet = true))) = some ([], true) := by decide +kernel
  rw [reached] at facts
  simp only [Option.map_some, Option.some.injEq, Prod.mk.injEq, decide_eq_true_eq] at facts
  exact ⟨_, s, trace_labels reached, facts.1, flag_down_when_quiet run facts.2⟩

/-- `Connect` up to the start of the recv thread, the recv thread to its end, and then the write of `true`. -/
def lateWrite : List Label :=
  .connect :: moves 0 [.none, .socket 8, .none, .none, .success true, .success true] ++
    moves 1 [.none, .bytes [], .none, .none, .none, .none] ++ moves 0 [.none]

/-- A peer that closes before `Connect` has written its `true` leaves the client connected for good. -/
theorem flag_stuck_after_early_close : ∃ tr s, Run client Free tr s ∧ (∀ t ∈ s.threads, t.quiet = true) ∧
    s.mbIsConnected = true := by
  have along : Along client Free newClient lateWrite := by decide +kernel
  obtain ⟨s, reached, run⟩ := Run.along (.init newClient_init) along
  have facts : (exec client newClient lateWrite).map
      (fun s => (s.mbIsConnected, decide (∀ t ∈ s.threads, t.quiet = true))) = some (true, true) := by decide +kernel
  rw [reached] at facts
  simp only [Option.map_some, Option.some.injEq, Prod.mk.injEq, decide_eq_true_eq] at facts
  exact ⟨_, s, run, facts.2, facts.1⟩

end WanNet.NetClient
