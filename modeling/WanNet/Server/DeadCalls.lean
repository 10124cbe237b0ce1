import WanNet.Server.Model

/-!
Calls with an ID that is no live session's: they raise the `IoCount` of whatever slot the ID's upper
half names, and take it back with `DecrementIoCount`.
-/

namespace WanNet.Server
open Transition Session

variable {p : Params} {s s' : NetServer} {key : Nat} {v w w' : Slot} {pc pc' : Pc} {role : Role}

/-- The slot holds a session: a call would not find the release flag or `bDisconnected`. -/
def Alive (v : Slot) : Prop := isNegative (inc32 v.IoCount) = false ∧ v.bDisconnected = false

/-- The ID of a live session. -/
def LiveID (s : NetServer) (sessionID : Nat) : Prop := ∃ v ∈ s.mSessionList, Alive v ∧ v.ID = sessionID

def alone (s : NetServer) (request : Request) (sessionID n : Nat) : List Label :=
  .call request sessionID :: match request.call, findSessionOrNull s sessionID with
    | some _, some key =>
      List.replicate n (.at key (.thread ((s.mSessionList[key]?).elim 0 fun v => v.threads.length) .go))
    | _, _ => []

/-- Everything is as it was, and the caller's thread is through. -/
def Restored (s s' : NetServer) : Prop :=
  s' = s ∨ ∃ key v t, s.mSessionList[key]? = some v ∧ t.pc = .finished ∧
    s' = s.put key { v with threads := v.threads ++ [t] }

/-! ### IoCount is a 32-bit word -/

theorem next_word {cfg : Config} {ans : Answer} (h : next cfg v role ans pc = some (w, pc')) (word : v.IoCount < 2 ^ 32) :
    w.IoCount < 2 ^ 32 := by
  cases next_moves h with
  | callIncrement | callReleased | acceptIncrement | recvIncrement | sendIncrement | decIncrement => exact inc32_lt _
  | decDecrement | decToZero => exact dec32_lt _
  | decCas => exact (by decide : releaseFlag < 2 ^ 32)
  | initClearFlag => exact Nat.lt_of_le_of_lt Nat.and_le_left word
  | _ => exact word

theorem slot_word {cfg : Config} {l : Session.Label} (h : Session.step cfg v l = some w) (word : v.IoCount < 2 ^ 32) :
    w.IoCount < 2 ^ 32 := by
  by_cases threaded : ∃ i ans, l = .thread i ans
  · obtain ⟨i, ans, rfl⟩ := threaded
    obtain ⟨t, u, pc', -, taken, rfl⟩ := step_thread h
    exact next_word (w := u) taken word
  · have same := (step_outside h fun i ans is => threaded ⟨i, ans, is⟩).1.count
    omega

@[simp] theorem effect_slots (s : NetServer) (v : Slot) (pc : Pc) : (effect s v pc).mSessionList = s.mSessionList := by
  unfold effect
  split <;> rfl

theorem put_slots {P : Slot → Prop} (all : ∀ v ∈ s.mSessionList, P v) (new : P w) : ∀ v ∈ (s.put key w).mSessionList, P v := by
  intro v member
  rcases List.mem_or_eq_of_mem_set member with old | rfl
  · exact all v old
  · exact new

theorem run_word {C : NetServer → Label → Prop} (run : Run (server p) C tr s) : ∀ v ∈ s.mSessionList, v.IoCount < 2 ^ 32 := by
  refine run.invariant_state (I := fun s => ∀ v ∈ s.mSessionList, v.IoCount < 2 ^ 32) (fun s (started : Started s) v member => ?_) ?_
  · rw [(started.slots v member).2]
    exact Nat.two_pow_pos 32
  intro s l s' words _ h
  cases l with
  | accept address =>
    obtain ⟨-, ⟨-, rfl⟩ | ⟨key, rest, v, v', -, here, taken, rfl⟩⟩ := step_accept h
    · exact words
    · exact put_slots words (slot_word taken (words v (List.mem_of_getElem? here)))
  | call request sessionID =>
    obtain ⟨rfl, -⟩ | ⟨call, key, v, v', -, -, here, taken, rfl⟩ := step_call h
    · exact words
    · exact put_slots words (slot_word taken (words v (List.mem_of_getElem? here)))
  | «at» key l =>
    obtain ⟨v, v', w, here, taken, rfl, how⟩ := step_at h
    have same : w.mSessionList = s.mSessionList := by
      obtain ⟨rfl, -⟩ | ⟨i, ans, t, -, -, rfl⟩ := how
      · rfl
      · exact effect_slots ..
    exact put_slots (by rw [same]; exact words) (slot_word taken (words v (List.mem_of_getElem? here)))

/-! ### A slot with a count of 0 -/

/-- The release part of a caller's `DecrementIoCount`, and where it ends. -/
def Pc.parting : Pc → Bool
  | .releaseTest false | .releaseClose false | .releaseDisconnectedCount false | .releaseSessionCount false
  | .releasePost false | .releasePush false | .crashed _ | .finished => true
  | _ => false

/-- Where a call goes whose ID is no live session's, when it finds `IoCount` at 0. -/
inductive Losing (sessionID : Nat) (w : Slot) : Pc → Prop where
  | arrives (zero : w.IoCount = 0) (dead : w.bDisconnected = false → w.ID ≠ sessionID) : Losing sessionID w .callIncrement
  | tests (one : w.IoCount = 1) (dead : w.bDisconnected = false → w.ID ≠ sessionID) : Losing sessionID w .callTestDisconnected
  | passes (one : w.IoCount = 1) (dead : w.ID ≠ sessionID) : Losing sessionID w .callTestRegistered
  | compares (one : w.IoCount = 1) (dead : w.ID ≠ sessionID) : Losing sessionID w .callTestID
  | leaves (one : w.IoCount = 1) : Losing sessionID w (.decCas false)
  | releases {pc : Pc} (flag : w.IoCount = releaseFlag) (parting : Pc.parting pc = true) : Losing sessionID w pc

theorem Losing.step {cfg : Config} {call : Call} (losing : Losing sessionID w pc)
    (h : next cfg w (.api call sessionID) .go pc = some (w', pc')) : Losing sessionID w' pc' := by
  cases losing with
  | arrives zero dead =>
    simp only [next, zero] at h
    cases h
    exact .tests rfl dead
  | tests one dead =>
    cases next_moves h with
    | callTestDisconnected connected => exact .passes one (dead connected)
    | callDisconnected => exact .leaves one
  | passes one dead =>
    cases next_moves h with
    | callTestRegistered => exact .compares one dead
    | callRegistered => exact .leaves one
  | compares one dead =>
    simp only [next, ne_eq, dead, not_false_eq_true, if_true] at h
    cases h
    exact .leaves one
  | leaves one =>
    simp only [next, one, if_true] at h
    cases h
    exact .releases rfl rfl
  | releases flag parting =>
    cases next_moves h with
    | releaseCrash again | releaseTest again | releaseClose again | releaseDisconnectedCount again | releaseSessionCount again
    | releasePost again | releasePush again =>
      cases again with
      | false => exact .releases flag rfl
      | true => cases parting
    | _ => cases parting

theorem Losing.congr {threads : List Thread} (losing : Losing sessionID w pc) :
    Losing sessionID { w with threads := threads } pc := by
  cases losing with
  | arrives zero dead => exact .arrives zero dead
  | tests one dead => exact .tests one dead
  | passes one dead => exact .passes one dead
  | compares one dead => exact .compares one dead
  | leaves one => exact .leaves one
  | releases flag parting => exact .releases flag parting

/-- The slot is not as it was, and will not be while the call goes on. -/
theorem Losing.changed (losing : Losing sessionID w pc) : w.IoCount ≠ 0 ∨ pc ≠ .finished := by
  cases losing with
  | arrives => exact .inr nofun
  | tests one | passes one | compares one | leaves one => exact .inl (by omega)
  | releases flag => exact .inl (by rw [flag]; decide)

def LosingAt (s : NetServer) (key i : Nat) (call : Call) (sessionID : Nat) : Prop :=
  ∃ v t, s.mSessionList[key]? = some v ∧ v.threads[i]? = some t ∧ t.role = .api call sessionID ∧ Losing sessionID v t.pc

theorem LosingAt.step (here : LosingAt s key i call sessionID) (taken : step p s (.at key (.thread i .go)) = some s') :
    LosingAt s' key i call sessionID := by
  obtain ⟨v, t, at_key, at_i, role, losing⟩ := here
  obtain ⟨v', v'', w, at_key', moved, rfl, how⟩ := step_at taken
  obtain rfl := Option.some.inj (at_key.symm.trans at_key')
  obtain ⟨t', u, pc', at_i', advanced, rfl⟩ := step_thread moved
  obtain rfl := Option.some.inj (at_i.symm.trans at_i')
  have same : w.mSessionList = s.mSessionList := by
    obtain ⟨rfl, -⟩ | ⟨i, ans, t, -, -, rfl⟩ := how
    · rfl
    · exact effect_slots ..
  rw [role] at advanced
  refine ⟨v.moved u i t pc', ⟨t.role, pc'⟩, ?_, ?_, role, (losing.step advanced).congr⟩
  · show (w.mSessionList.set key _)[key]? = _
    rw [same, List.getElem?_set_self (List.getElem?_eq_some_iff.mp at_key).1]
  · exact List.getElem?_set_self (List.getElem?_eq_some_iff.mp at_i).1

theorem LosingAt.exec (here : LosingAt s key i call sessionID)
    (e : exec (server p) s (List.replicate n (.at key (.thread i .go))) = some s') : LosingAt s' key i call sessionID := by
  induction n generalizing s with
  | zero => exact Option.some.inj e ▸ here
  | succ n ih =>
    obtain ⟨u, taken, e⟩ := Option.bind_eq_some_iff.mp e
    exact ih (here.step (p := p) taken) e

/-- A call that finds `IoCount` at 0 leaves the slot released, or dies in `ASSERT_LIVE`. -/
theorem losing_call (key : Nat) (here : s.mSessionList[key]? = some v) (found : findSessionOrNull s sessionID = some key)
    (is : request.call = some call) (zero : v.IoCount = 0) (dead : v.bDisconnected = false → v.ID ≠ sessionID)
    (e : exec (server p) s (alone s request sessionID n) = some s') : ¬ Restored s s' := by
  obtain ⟨u, arrives, e⟩ := Option.bind_eq_some_iff.mp e
  simp only [is, found, here, Option.elim_some] at e
  have arrived : u = s.put key (v.spawn (.api call sessionID) .callIncrement) := by
    simp only [server, step, is, found, here, Option.bind_some, Session.step, Option.map_some] at arrives
    exact (Option.some.inj arrives).symm
  have lt := (List.getElem?_eq_some_iff.mp here).1
  have losing : LosingAt u key v.threads.length call sessionID := by
    refine ⟨v.spawn (.api call sessionID) .callIncrement, ⟨.api call sessionID, .callIncrement⟩, ?_, ?_, rfl, .arrives zero dead⟩
    · rw [arrived]
      exact List.getElem?_set_self lt
    · simp [Slot.spawn]
  obtain ⟨w, t, at_key, at_i, -, losing⟩ := losing.exec e
  rintro (rfl | ⟨key', v', t', here', finished, rfl⟩)
  · obtain rfl := Option.some.inj (here.symm.trans at_key)
    simp at at_i
  · by_cases same : key' = key
    · obtain rfl := same
      obtain rfl := Option.some.inj (here.symm.trans here')
      obtain rfl : _ = w := Option.some.inj ((List.getElem?_set_self lt).symm.trans at_key)
      obtain rfl : t' = t := by simpa using at_i
      exact losing.changed.elim (fun changed => changed zero) fun running => running finished
    · have at_key : (s.mSessionList.set key' _)[key]? = some w := at_key
      rw [List.getElem?_set_ne same, here] at at_key
      obtain rfl := Option.some.inj at_key
      simp at at_i

/-! ### A slot with another count -/

def NetServer.during (s : NetServer) (key : Nat) (v : Slot) (role : Role) (count : Nat) (pc : Pc) : NetServer :=
  s.put key { v with IoCount := count, threads := v.threads ++ [⟨role, pc⟩] }

/-- Steps of the call's thread alone lead from one count and program counter to another. -/
def Leads (p : Params) (s : NetServer) (key : Nat) (v : Slot) (role : Role) (count : Nat) (pc : Pc) (count' : Nat)
    (pc' : Pc) : Prop :=
  ∃ n, exec (server p) (s.during key v role count pc) (List.replicate n (.at key (.thread v.threads.length .go))) =
    some (s.during key v role count' pc')

theorem Leads.refl : Leads p s key v role count pc count pc := ⟨0, rfl⟩

theorem Leads.step (here : s.mSessionList[key]? = some v)
    (taken : next (p.config key) { v with IoCount := count, threads := v.threads ++ [⟨role, pc⟩] } role .go pc =
      some ({ v with IoCount := count', threads := v.threads ++ [⟨role, pc⟩] }, pc'))
    (inner : ∀ (s : NetServer) v, effect s v pc = s) (rest : Leads p s key v role count' pc' count'' pc'') :
    Leads p s key v role count pc count'' pc'' := by
  obtain ⟨n, rest⟩ := rest
  refine ⟨n + 1, ?_⟩
  have lt := (List.getElem?_eq_some_iff.mp here).1
  have first : Server.step p (s.during key v role count pc) (.at key (.thread v.threads.length .go)) =
      some (s.during key v role count' pc') := by
    simp [Server.step, NetServer.during, NetServer.put, lt, Session.step, taken, inner]
  exact Option.bind_eq_some_iff.mpr ⟨_, first, rest⟩

theorem leaves (role : Role) (here : s.mSessionList[key]? = some v) (word : v.IoCount < 2 ^ 32) (more : v.IoCount ≠ 0) :
    Leads p s key v role (inc32 v.IoCount) (.decCas false) v.IoCount .finished := by
  have not_one : inc32 v.IoCount ≠ 1 := by
    unfold inc32
    omega
  have back := dec32_inc32 word
  refine .step here (by simp only [next, if_neg not_one]; rfl) (fun _ _ => rfl) ?_
  exact .step here (by simp only [next, back, if_neg more, decReturn, Bool.false_eq_true, if_false]) (fun _ _ => rfl) .refl

theorem returns (call : Call) (here : s.mSessionList[key]? = some v) (word : v.IoCount < 2 ^ 32) (more : v.IoCount ≠ 0)
    (dead : ¬ (Alive v ∧ v.ID = sessionID)) :
    Leads p s key v (.api call sessionID) v.IoCount .callIncrement v.IoCount .finished := by
  have out := leaves (p := p) (.api call sessionID) here word more
  cases negative : isNegative (inc32 v.IoCount) with
  | true => exact .step here (by simp only [next, negative, if_true]) (fun _ _ => rfl) out
  | false =>
    refine .step here (by simp only [next, negative]; rfl) (fun _ _ => rfl) ?_
    cases closed : v.bDisconnected with
    | true => exact .step here (by simp only [next, closed, if_true]; rfl) (fun _ _ => rfl) out
    | false =>
      refine .step here (by simp only [next, closed]; rfl) (fun _ _ => rfl) ?_
      cases registered : v.bDisconnectRegistered with
      | true => exact .step here (by simp only [next, registered, if_true]; rfl) (fun _ _ => rfl) out
      | false =>
        refine .step here (by simp only [next, registered]; rfl) (fun _ _ => rfl) ?_
        have other : v.ID ≠ sessionID := fun same => dead ⟨⟨negative, closed⟩, same⟩
        exact .step here (by simp only [next, ne_eq, other, not_false_eq_true, if_true]; rfl) (fun _ _ => rfl) out

/-- A call with an ID that is no live session's, run alone, leaves everything as it was if and only
if it gives up before it has a slot, or the slot's `IoCount` is not 0. -/
theorem dead_call_restores_iff (run : Run (server p) Free tr s)
    (dead : ¬ LiveID s sessionID) :
    (∃ n s', exec (server p) s (alone s request sessionID n) = some s' ∧ Restored s s') ↔
      request.call = none ∨ findSessionOrNull s sessionID = none ∨
        ∃ key v, findSessionOrNull s sessionID = some key ∧ s.mSessionList[key]? = some v ∧ v.IoCount ≠ 0 := by
  cases is : request.call with
  | none => exact ⟨fun _ => .inl rfl, fun _ => ⟨0, s, by simp [alone, is, exec, server, step], .inl rfl⟩⟩
  | some call =>
    cases found : findSessionOrNull s sessionID with
    | none =>
      exact ⟨fun _ => .inr (.inl rfl), fun _ => ⟨0, s, by simp [alone, is, found, exec, server, step], .inl rfl⟩⟩
    | some key =>
      obtain ⟨v, here⟩ := findSessionOrNull_lt found
      constructor
      · rintro ⟨n, s', e, restored⟩
        refine .inr (.inr ⟨key, v, rfl, here, fun zero => ?_⟩)
        refine losing_call key here found is zero (fun unclosed same => ?_) e restored
        exact dead ⟨v, List.mem_of_getElem? here, ⟨by rw [zero]; rfl, unclosed⟩, same⟩
      · rintro (none | none | ⟨key', v', found', here', more⟩)
        · cases none
        · cases none
        · obtain rfl := Option.some.inj found'
          obtain rfl := Option.some.inj (here.symm.trans here')
          have word := run_word run v (List.mem_of_getElem? here)
          obtain ⟨n, back⟩ := returns (p := p) call here word more fun live =>
            dead ⟨v, List.mem_of_getElem? here, live⟩
          refine ⟨n, _, ?_, .inr ⟨key, v, ⟨.api call sessionID, .finished⟩, here, rfl, rfl⟩⟩
          simp only [alone, is, found, here, Option.elim_some]
          refine Option.bind_eq_some_iff.mpr ⟨_, ?_, back⟩
          simp [server, step, is, found, here, Session.step, Slot.spawn, NetServer.during]

theorem unused_slot_call_crashes : ∃ tr s, Run (server plainServer) Free tr s ∧ ¬ LiveID s 0 ∧
    ¬ ∃ n s', exec (server plainServer) s (alone s .getSessionAddress 0 n) = some s' ∧ Restored s s' := by
  refine ⟨[], freshServer, .init freshServer_started, ?_, ?_⟩
  · rintro ⟨v, member, ⟨-, unclosed⟩, -⟩
    obtain rfl := List.mem_singleton.mp member
    cases unclosed
  · rintro ⟨n, s', e, restored⟩
    exact losing_call (s := freshServer) (v := unusedSlot) 0 rfl rfl rfl rfl nofun e restored

theorem stale_call_restores : ∃ s n s', exec (server plainServer) freshServer firstClient = some s ∧
    exec (server plainServer) s (alone s .disconnect 2 n) = some s' ∧ Restored s s' := by
  have along : Along (server plainServer) Free freshServer firstClient := by decide +kernel
  obtain ⟨s, reached, run⟩ := Run.along (.init freshServer_started) along
  have facts : (exec (server plainServer) freshServer firstClient).map
      (fun s => s.mSessionList.map fun v => (v.ID, v.IoCount)) = some [(1, 1)] := by decide +kernel
  rw [reached] at facts
  have slots : s.mSessionList.map (fun v => (v.ID, v.IoCount)) = [(1, 1)] := Option.some.inj facts
  obtain ⟨v, only, id⟩ := List.map_eq_singleton_iff.mp slots
  obtain ⟨named, one⟩ := Prod.mk.inj id
  have dead : ¬ LiveID s 2 := by
    rintro ⟨w, member, -, same⟩
    obtain rfl : w = v := by simpa [only] using member
    omega
  have routed : findSessionOrNull s 2 = some 0 := by simp [findSessionOrNull, NetServer.mMaxSessionCount, only]
  have restores : (∃ n s', exec (server plainServer) s (alone s .disconnect 2 n) = some s' ∧ Restored s s') ↔ _ :=
    dead_call_restores_iff (p := plainServer) run dead
  obtain ⟨n, s', e, restored⟩ := restores.mpr (.inr (.inr ⟨0, v, routed, by simp [only], by omega⟩))
  exact ⟨s, n, s', reached, e, restored⟩

end WanNet.Server
