import WanNet.Session.Identity

/-!
The IDs in release notices: `DecrementIoCount` posts the ID that the accept thread gave the slot.
-/

namespace WanNet.Session
open Transition

variable {cfg : Config} {s s' : Slot} {pc pc' : Pc}

/-- The accept thread has written `ID`, and `bDisconnected` is still to be cleared, or a release is
under way. -/
def Pc.named : Pc → Bool
  | .initSocket | .initAddress | .initSendFlag | .initKey | .initDisconnected
  | .releaseClose _ | .releaseDisconnectedCount _ | .releaseSessionCount _ | .releasePost _ => true
  | _ => false

/-- No ID that may reach a release notice is 0. -/
structure Named (cfg : Config) (s : Slot) : Prop where
  rounds : ∀ t ∈ s.threads, ∀ count sock address, t.role = .accept count sock address → newSessionID cfg count ≠ 0
  live : s.bDisconnected = false → s.ID ≠ 0
  within : ∀ t ∈ s.threads, t.pc.named = true → s.ID ≠ 0
  posted : ∀ notice ∈ s.posted, notice ≠ 0

theorem Named.init (fresh : s.Fresh) : Named cfg s := by
  obtain ⟨threads, -, -, posted⟩ := fresh.idle
  refine ⟨?_, fun live => ?_, ?_, ?_⟩
  · simp [threads]
  · rw [fresh.disconnected] at live
    cases live
  · simp [threads]
  · simp [posted]

theorem next_named (h : next cfg s role ans pc = some (s', pc')) :
    (s'.ID = s.ID ∨ ∃ count sock address, role = .accept count sock address ∧ s'.ID = newSessionID cfg count) ∧
      (pc'.named = true → pc.named = true ∨ s.bDisconnected = false ∨
        ∃ count sock address, role = .accept count sock address ∧ s'.ID = newSessionID cfg count) ∧
      (s'.bDisconnected = false → s.bDisconnected = false ∨ pc.named = true) ∧
      (s'.posted = s.posted ∨ pc.named = true ∧ s'.posted = s.posted ++ [s.ID]) := by
  cases next_moves h with
  | initID count sock address accept =>
    exact ⟨.inr ⟨count, sock, address, accept, rfl⟩, fun _ => .inr (.inr ⟨count, sock, address, accept, rfl⟩), .inl, .inl rfl⟩
  | initDisconnected => exact ⟨.inl rfl, (fun named => by cases named), fun _ => .inr rfl, .inl rfl⟩
  | releaseTest again connected => exact ⟨.inl rfl, fun _ => .inr (.inl connected), (fun live => by cases live), .inl rfl⟩
  | releaseCrash => exact ⟨.inl rfl, (fun named => by cases named), (fun live => by cases live), .inl rfl⟩
  | releasePost => exact ⟨.inl rfl, (fun named => by cases named), .inl, .inr ⟨rfl, rfl⟩⟩
  | decDecrement again | releasePush again =>
    cases again <;> exact ⟨.inl rfl, (fun named => by cases named), .inl, .inl rfl⟩
  | initSocket | initAddress | initSendFlag | initKey | releaseClose | releaseDisconnectedCount | releaseSessionCount =>
    exact ⟨.inl rfl, fun _ => .inl rfl, .inl, .inl rfl⟩
  | _ => exact ⟨.inl rfl, (fun named => by cases named), .inl, .inl rfl⟩

theorem Named.move (named : Named cfg s) (at_i : s.threads[i]? = some t)
    (taken : next cfg s t.role ans t.pc = some (s', pc')) : Named cfg (s.moved s' i t pc') := by
  have member := List.mem_of_getElem? at_i
  obtain ⟨id, enters, clears, posts⟩ := next_named taken
  have written : (∃ count sock address, t.role = .accept count sock address ∧ s'.ID = newSessionID cfg count) → s'.ID ≠ 0 := by
    rintro ⟨count, sock, address, role, is⟩
    rw [is]
    exact named.rounds t member count sock address role
  have keeps : s.ID ≠ 0 → s'.ID ≠ 0 := by
    intro nonzero
    rcases id with same | is
    · rw [same]
      exact nonzero
    · exact written is
  refine ⟨fun t' held => ?_, fun live => ?_, fun t' held inside => ?_, fun notice held => ?_⟩
  · rcases List.mem_or_eq_of_mem_set held with old | rfl
    · exact named.rounds t' old
    · exact named.rounds t member
  · exact keeps ((clears live).elim named.live (named.within t member))
  · rcases List.mem_or_eq_of_mem_set held with old | rfl
    · exact keeps (named.within t' old inside)
    · rcases enters inside with before | live | is
      · exact keeps (named.within t member before)
      · exact keeps (named.live live)
      · exact written is
  · have held : notice ∈ s'.posted := held
    rcases posts with same | ⟨inside, more⟩
    · exact named.posted notice (same ▸ held)
    · rw [more] at held
      rcases List.mem_append.mp held with old | last
      · exact named.posted notice old
      · rw [List.mem_singleton.mp last]
        exact named.within t member inside

theorem Named.join (named : Named cfg s) (same : s.Untouched s') (posted : s'.posted ⊆ s.posted) (new : List Thread)
    (threads : s'.threads = s.threads ++ new) (start : ∀ t ∈ new, t.pc.named = false ∧
      ∀ count sock address, t.role = .accept count sock address → newSessionID cfg count ≠ 0) : Named cfg s' := by
  refine ⟨fun t held => ?_, fun live => ?_, fun t held inside => ?_, fun notice held => ?_⟩
  · rw [threads] at held
    exact (List.mem_append.mp held).elim (named.rounds t) fun held => (start t held).2
  · rw [same.id]
    exact named.live (same.disconnected ▸ live)
  · rw [same.id]
    rw [threads] at held
    rcases List.mem_append.mp held with old | held
    · exact named.within t old inside
    · rw [(start t held).1] at inside
      cases inside
  · exact named.posted notice (posted held)

theorem Named.step (named : Named cfg s) (h : step cfg s l = some s')
    (nonzero : ∀ count sock address, l = .accept count sock address → newSessionID cfg count ≠ 0) : Named cfg s' := by
  by_cases threaded : ∃ i ans, l = .thread i ans
  · obtain ⟨i, ans, rfl⟩ := threaded
    obtain ⟨t, u, pc', at_i, taken, rfl⟩ := step_thread h
    exact named.move at_i taken
  have same := (step_outside h fun i ans is => threaded ⟨i, ans, is⟩).1
  cases l with
  | thread i ans => exact absurd ⟨i, ans, rfl⟩ threaded
  | accept count sock address =>
    obtain ⟨-, rfl⟩ := step_accept h
    refine named.join same (List.Subset.refl _) [_] rfl fun t held => ?_
    obtain rfl := List.mem_singleton.mp held
    refine ⟨rfl, fun count' sock' address' role => ?_⟩
    obtain ⟨rfl, -, -⟩ := Role.accept.inj role
    exact nonzero _ _ _ rfl
  | call call sessionID =>
    obtain rfl := Option.some.inj h
    refine named.join same (List.Subset.refl _) [_] rfl fun t held => ?_
    obtain rfl := List.mem_singleton.mp held
    exact ⟨rfl, by simp⟩
  | recvCompletes j data =>
    obtain ⟨io, -, -, rfl⟩ := step_recvCompletes h
    exact named.join same (List.Subset.refl _) [] (List.append_nil _).symm (by simp)
  | recvFails j =>
    obtain ⟨io, -, rfl⟩ := step_recvFails h
    exact named.join same (List.Subset.refl _) [] (List.append_nil _).symm (by simp)
  | sendCompletes j =>
    obtain ⟨io, -, rfl⟩ := step_sendCompletes h
    exact named.join same (List.Subset.refl _) [] (List.append_nil _).symm (by simp)
  | sendFails j =>
    obtain ⟨io, -, rfl⟩ := step_sendFails h
    exact named.join same (List.Subset.refl _) [] (List.append_nil _).symm (by simp)
  | workRecv j =>
    obtain ⟨io, success, n, -, -, rfl⟩ := step_workRecv h
    refine named.join same (List.Subset.refl _) [_] rfl fun t held => ?_
    obtain rfl := List.mem_singleton.mp held
    exact ⟨by cases success <;> rfl, by simp⟩
  | workSend j =>
    obtain ⟨io, success, n, -, -, rfl⟩ := step_workSend h
    refine named.join same (List.Subset.refl _) [_] rfl fun t held => ?_
    obtain rfl := List.mem_singleton.mp held
    exact ⟨by cases success <;> rfl, by simp⟩
  | workRelease j =>
    obtain ⟨sessionID, -, rfl⟩ := step_workRelease h
    refine named.join same (List.eraseIdx_subset) [_] rfl fun t held => ?_
    obtain rfl := List.mem_singleton.mp held
    exact ⟨rfl, by simp⟩

end WanNet.Session
