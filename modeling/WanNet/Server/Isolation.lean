import WanNet.Server.Model
import WanNet.Session.Separation

/-!
The slots of a running server, each a slot of its own, and what it means for the clients: no data
of one session reaches another.
-/

namespace WanNet.Server
open Transition Session

variable {p : Params} {s s' u : NetServer} {key : Nat} {v v' w : Slot} {pc pc' : Pc} {i : Nat}

/-! ### Runs -/

/-- Fewer than 2^31 - 1 references on every slot after the step. -/
def FewEach (p : Params) (s : NetServer) (l : Label) : Prop :=
  ∀ s' ∈ step p s l, ∀ v ∈ s'.mSessionList, references v < 2 ^ 31 - 1

/-- Calls use IDs that `OnAccept` was given, and fewer than 2^32 sessions are accepted. -/
def Obtained (p : Params) (s : NetServer) : Label → Prop
  | .accept _ => s.mSessionAcceptedCount + 1 < 2 ^ 32
  | .call _ sessionID => ∃ key ∈ List.range s.mMaxSessionCount, ∃ v ∈ s.mSessionList[key]?, ∃ n ∈ v.issued,
      sessionID = newSessionID (p.config key) n
  | .at _ _ => True

/-- No `SendQueue` has reached the 2^32 packets at which its count wraps around. -/
def CountableEach (p : Params) (s : NetServer) : Prop := ∀ v ∈ s.mSessionList, Countable (p.config 0) v

instance : Decidable (CountableEach p s) := inferInstanceAs (Decidable (∀ v ∈ s.mSessionList, _))

instance : Decidable (FewEach p s l) := inferInstanceAs (Decidable (∀ s' ∈ step p s l, _))

instance : Decidable (Obtained p s l) :=
  match l with
  | .accept _ => inferInstanceAs (Decidable (_ < _))
  | .call _ _ => inferInstanceAs (Decidable (∃ key ∈ List.range s.mMaxSessionCount, _))
  | .at _ _ => .isTrue trivial

/-! ### A slot in its server -/

/-- A session is accepted before it is used. -/
def Begun (v : Slot) : Prop := 0 < v.inits + weigh initialising v → 0 < v.accepted

theorem next_begun {cfg : Config} {t : Thread} {ans : Answer} (h : next cfg v t.role ans t.pc = some (w, pc')) :
    (w.inits = v.inits ∨ 0 < initialising t.pc) ∧ initialising pc' ≤ initialising t.pc := by
  refine ⟨?_, (next_initialising h).1⟩
  cases init : t.pc.initialises with
  | true => exact .inr (by simp [initialising, init])
  | false => exact .inl (next_keeps h init).inits

theorem run_begun {cfg : Config} (run : Run (slot cfg) (fun v l => Few cfg v l ∧ Called cfg v l) tr v) : Begun v := by
  refine run.invariant_state (I := Begun) (fun v fresh used => ?_) fun v l v' begun ⟨_, called⟩ h => ?_
  · have := fresh.unused.1
    simp [weigh, fresh.idle.1, this] at used
  have h : Session.step cfg v l = some v' := h
  by_cases threaded : ∃ i ans, l = .thread i ans
  · obtain ⟨i, ans, rfl⟩ := threaded
    obtain ⟨t, u, pc', at_i, taken, rfl⟩ := Session.step_thread h
    have changed := weigh_moved initialising u pc' at_i
    have own := le_weigh (w := initialising) (List.mem_of_getElem? at_i)
    have := next_begun taken
    intro used
    have used : 0 < u.inits + weigh initialising (v.moved u i t pc') := used
    show 0 < u.accepted
    rw [(next_accepted taken).1]
    exact begun (by omega)
  · have outside (i ans) : l ≠ .thread i ans := fun is => threaded ⟨i, ans, is⟩
    by_cases accepting : ∃ count sock address, l = .accept count sock address
    · obtain ⟨count, sock, address, rfl⟩ := accepting
      obtain ⟨-, rfl⟩ := Session.step_accept h
      intro _
      exact Nat.lt_of_le_of_lt (Nat.zero_le _) called.1
    · obtain ⟨⟨accepted, -⟩, threads⟩ := step_elsewhere h outside fun count sock address is => accepting ⟨count, sock, address, is⟩
      have same := (step_outside h outside).1
      have still : weigh initialising v' = weigh initialising v := by
        rcases threads with same | ⟨t, more, -, uninit⟩
        · unfold weigh
          rw [same]
        · rw [weigh_join more]
          simp [Threads.total, initialising, uninit]
      intro used
      rw [accepted]
      exact begun (by rwa [still, same.inits] at used)

/-- A thread pushes a key in its last step of a release only. -/
theorem next_keys {cfg : Config} {role : Role} {ans : Answer} (h : next cfg v role ans pc = some (w, pc')) :
    (∃ again, pc = .releasePush again ∧ w.unusedKeys = if v.SessionListKey = cfg.key then v.unusedKeys + 1 else v.unusedKeys) ∨
      (∀ again, pc ≠ .releasePush again) ∧ w.unusedKeys = v.unusedKeys := by
  cases next_moves h with
  | releasePush again => exact .inl ⟨again, rfl, rfl⟩
  | _ => exact .inr ⟨fun again here => (by cases here), rfl⟩

theorem effect_keys (s : NetServer) (v : Slot) (pc : Pc) :
    (∃ again, pc = .releasePush again ∧ (effect s v pc).mUnusedSessionKeys = v.SessionListKey :: s.mUnusedSessionKeys) ∨
      (∀ again, pc ≠ .releasePush again) ∧ (effect s v pc).mUnusedSessionKeys = s.mUnusedSessionKeys := by
  unfold effect
  split
  case h_5 again => exact .inl ⟨again, rfl, rfl⟩
  all_goals exact .inr ⟨by simp_all, rfl⟩

theorem effect_same (s : NetServer) (v : Slot) (pc : Pc) :
    (effect s v pc).mSessionList = s.mSessionList ∧ (effect s v pc).mSessionAcceptedCount = s.mSessionAcceptedCount ∧
      (effect s v pc).clients = s.clients ∧ (effect s v pc).opened = s.opened := by
  unfold effect
  split <;> exact ⟨rfl, rfl, rfl, rfl⟩

theorem step_slots (h : step p s l = some s') :
    (s'.mSessionList = s.mSessionList ∧ ∀ key i ans, l ≠ .at key (.thread i ans)) ∨
      ∃ key v v' l', s.mSessionList[key]? = some v ∧ Session.step (p.config key) v l' = some v' ∧
        s'.mSessionList = s.mSessionList.set key v' ∧
        ((∀ i ans, l' ≠ .thread i ans) ∧ (∀ key i ans, l ≠ .at key (.thread i ans)) ∨
          ∃ i ans, l' = .thread i ans ∧ l = .at key (.thread i ans)) := by
  cases l with
  | accept address =>
    obtain ⟨-, ⟨-, rfl⟩ | ⟨key, rest, v, v', -, here, taken, rfl⟩⟩ := step_accept h
    · exact .inl ⟨rfl, nofun⟩
    · exact .inr ⟨key, v, v', _, here, taken, rfl, .inl ⟨nofun, nofun⟩⟩
  | call request sessionID =>
    obtain ⟨rfl, -⟩ | ⟨call, key, v, v', -, -, here, taken, rfl⟩ := step_call h
    · exact .inl ⟨rfl, nofun⟩
    · exact .inr ⟨key, v, v', _, here, taken, rfl, .inl ⟨nofun, nofun⟩⟩
  | «at» key l =>
    obtain ⟨v, v', w, here, taken, rfl, ⟨rfl, outside⟩ | ⟨i, ans, t, rfl, at_i, rfl⟩⟩ := step_at h
    · refine .inr ⟨key, v, v', l, here, taken, rfl, .inl ⟨outside, ?_⟩⟩
      rintro key' i ans ⟨⟩
      exact outside i ans rfl
    · refine .inr ⟨key, v, v', _, here, taken, ?_, .inr ⟨i, ans, rfl, rfl⟩⟩
      show (effect s v t.pc).mSessionList.set key v' = _
      rw [(effect_same s v t.pc).1]

structure Sound (p : Params) (s : NetServer) : Prop where
  range : s.mMaxSessionCount < 2 ^ 32 ∧ s.mSessionAcceptedCount < 2 ^ 32
  slots : ∀ key v, s.mSessionList[key]? = some v →
    ∃ tr, Run (slot (p.config key)) (fun v l => Few (p.config key) v l ∧ Called (p.config key) v l) tr v
  keys : ∀ key v, s.mSessionList[key]? = some v → s.mUnusedSessionKeys.count key = v.unusedKeys
  accepted : ∀ key v, s.mSessionList[key]? = some v → v.accepted ≤ s.mSessionAcceptedCount ∧
    (0 < v.accepted → (newSessionID (p.config key) v.accepted, v.acceptedSocket) ∈ s.opened)
  opened : (∀ x ∈ s.opened, x.1 % 2 ^ 32 ≤ s.mSessionAcceptedCount ∧ x.2 ≤ s.clients) ∧
    s.opened.Pairwise fun x y => x.1 % 2 ^ 32 < y.1 % 2 ^ 32 ∧ x.2 < y.2

theorem Sound.init (started : Started s) : Sound p s := by
  obtain ⟨count, -, -⟩ := started.counters
  obtain ⟨-, -, opened⟩ := started.unused
  have fresh {key : Nat} {v : Slot} (here : s.mSessionList[key]? = some v) : v.Fresh :=
    (started.slots v (List.mem_of_getElem? here)).1
  refine ⟨⟨started.range, by omega⟩, fun key v here => ⟨[], .init (fresh here)⟩, fun key v here => ?_,
    fun key v here => ?_, by simp [opened]⟩
  · have lt : key < s.mMaxSessionCount := (List.getElem?_eq_some_iff.mp here).1
    rw [started.keys, Lifecycle.pushKeys_eq, (fresh here).free, List.append_nil, List.count_reverse]
    exact List.count_eq_one_of_mem List.nodup_range (List.mem_range.mpr lt)
  · have := (fresh here).unused.2.1
    omega

theorem at_put (here : s.mSessionList[key]? = some v) {key' : Nat} (at_key : (s.put key v').mSessionList[key']? = some w) :
    key' = key ∧ w = v' ∨ key' ≠ key ∧ s.mSessionList[key']? = some w := by
  have at_key : (s.mSessionList.set key v')[key']? = some w := at_key
  by_cases same : key' = key
  · rw [same, List.getElem?_set_self (List.getElem?_eq_some_iff.mp here).1] at at_key
    exact .inl ⟨same, (Option.some.inj at_key).symm⟩
  · rw [List.getElem?_set_ne (Ne.symm same)] at at_key
    exact .inr ⟨same, at_key⟩

theorem Sound.slot_step (sound : Sound p s) (here : s.mSessionList[key]? = some v) {l : Session.Label}
    (called : Called (p.config key) v l) (taken : Session.step (p.config key) v l = some v')
    (few : references v' < 2 ^ 31 - 1) {key' : Nat} (at_key : (s.put key v').mSessionList[key']? = some w) :
    ∃ tr, Run (slot (p.config key')) (fun v l => Few (p.config key') v l ∧ Called (p.config key') v l) tr w := by
  rcases at_put here at_key with ⟨rfl, rfl⟩ | ⟨-, old⟩
  · obtain ⟨tr, run⟩ := sound.slots key' v here
    refine ⟨_, run.step ⟨fun v'' is => ?_, called⟩ taken⟩
    obtain rfl := Option.some.inj (taken.symm.trans is)
    exact few
  · exact sound.slots key' w old

theorem Sound.put (sound : Sound p s) (here : s.mSessionList[key]? = some v) {l : Session.Label}
    (called : Called (p.config key) v l) (taken : Session.step (p.config key) v l = some v')
    (few : references v' < 2 ^ 31 - 1) (same : u.mSessionList = s.mSessionList ∧ u.mSessionAcceptedCount = s.mSessionAcceptedCount ∧
      u.clients = s.clients ∧ u.opened = s.opened)
    (accepted : v'.accepted = v.accepted ∧ v'.acceptedSocket = v.acceptedSocket)
    (own_key : u.mUnusedSessionKeys.count key = v'.unusedKeys)
    (other_keys : ∀ key' ≠ key, u.mUnusedSessionKeys.count key' = s.mUnusedSessionKeys.count key') : Sound p (u.put key v') := by
  obtain ⟨list, count, clients, opened⟩ := same
  have same_list : (u.put key v').mSessionList = (s.put key v').mSessionList := by
    simp only [NetServer.put, list]
  refine ⟨?_, fun key' w at_key => ?_, fun key' w at_key => ?_, fun key' w at_key => ?_, ?_⟩
  · have length : (u.put key v').mMaxSessionCount = s.mMaxSessionCount := by
      simp [NetServer.mMaxSessionCount, NetServer.put, list]
    rw [length]
    show _ ∧ u.mSessionAcceptedCount < 2 ^ 32
    rw [count]
    exact sound.range
  · rw [same_list] at at_key
    exact sound.slot_step here called taken few at_key
  · rw [same_list] at at_key
    rcases at_put here at_key with ⟨rfl, rfl⟩ | ⟨other, old⟩
    · exact own_key
    · exact (other_keys key' other).trans (sound.keys key' w old)
  · rw [same_list] at at_key
    show w.accepted ≤ u.mSessionAcceptedCount ∧ (_ → _ ∈ u.opened)
    rw [count, opened]
    rcases at_put here at_key with ⟨rfl, rfl⟩ | ⟨other, old⟩
    · rw [accepted.1, accepted.2]
      exact sound.accepted key' v here
    · exact sound.accepted key' w old
  · show (∀ x ∈ u.opened, x.1 % 2 ^ 32 ≤ u.mSessionAcceptedCount ∧ x.2 ≤ u.clients) ∧ u.opened.Pairwise _
    rw [count, clients, opened]
    exact sound.opened

theorem Sound.call (sound : Sound p s) (few : FewEach p s (.call request sessionID)) (obtained : Obtained p s (.call request sessionID))
    (h : step p s (.call request sessionID) = some s') : Sound p s' := by
  have few := few s' h
  obtain ⟨rfl, -⟩ | ⟨call, key, v, v', -, found, here, taken, rfl⟩ := step_call h
  · exact sound
  have called : Called (p.config key) v (.call call sessionID) := by
    obtain ⟨key', -, v'', here', n, issued, rfl⟩ := obtained
    have here' : s.mSessionList[key']? = some v'' := here'
    rw [findSessionOrNull_of_issued here' sound.range.1] at found
    obtain rfl := Option.some.inj found
    obtain rfl := Option.some.inj (here.symm.trans here')
    have := (sound.accepted key' v here).1
    have := sound.range.2
    exact ⟨n, issued, rfl, by omega⟩
  obtain rfl := Option.some.inj taken
  exact sound.put here called rfl (few _ (List.mem_set (List.getElem?_eq_some_iff.mp here).1 _)) ⟨rfl, rfl, rfl, rfl⟩
    ⟨rfl, rfl⟩ (sound.keys key v here) fun _ _ => rfl

theorem Sound.at (sound : Sound p s) (few : FewEach p s (.at key l)) (h : step p s (.at key l) = some s') : Sound p s' := by
  have fewer := few s' h
  obtain ⟨v, v', w, here, taken, rfl, how⟩ := step_at h
  have noaccept (count sock address) : l ≠ .accept count sock address := by
    rintro rfl
    cases h
  have called : Called (p.config key) v l := by
    cases l <;> trivial
  have lt := (List.getElem?_eq_some_iff.mp here).1
  obtain ⟨rfl, outside⟩ | ⟨i, ans, t, rfl, at_i, rfl⟩ := how
  · have few := fewer v' (List.mem_set lt _)
    obtain ⟨⟨accepted, sock, keys⟩, -⟩ := step_elsewhere taken outside noaccept
    exact sound.put here called taken few ⟨rfl, rfl, rfl, rfl⟩ ⟨accepted, sock⟩ (by rw [keys]; exact sound.keys key v here)
      fun _ _ => rfl
  · have same := effect_same s v t.pc
    have few := fewer v' (List.mem_set (by rw [same.1]; exact lt) _)
    obtain ⟨t', v₁, pc', at_i', advanced, is⟩ := step_thread taken
    obtain rfl := Option.some.inj (at_i.symm.trans at_i')
    obtain ⟨accepted, sock, -⟩ := next_accepted advanced
    obtain ⟨own, others⟩ : (effect s v t.pc).mUnusedSessionKeys.count key = v₁.unusedKeys ∧
        ∀ key' ≠ key, (effect s v t.pc).mUnusedSessionKeys.count key' = s.mUnusedSessionKeys.count key' := by
      rcases next_keys advanced with ⟨again, push, more⟩ | ⟨nopush, still⟩
      · obtain ⟨_, run⟩ := sound.slots key v here
        have own_key : v.SessionListKey = key := (Run.identified run).1.key_at_push (List.mem_of_getElem? at_i) push
        rw [if_pos (by exact own_key)] at more
        rcases effect_keys s v t.pc with ⟨-, -, pushed⟩ | ⟨nopush, -⟩
        · rw [pushed, own_key, more, ← sound.keys key v here]
          exact ⟨List.count_cons_self, fun key' other => List.count_cons_of_ne (Ne.symm other)⟩
        · exact absurd push (nopush again)
      · rcases effect_keys s v t.pc with ⟨again, push, -⟩ | ⟨-, same⟩
        · exact absurd push (nopush again)
        · rw [same, still]
          exact ⟨sound.keys key v here, fun _ _ => rfl⟩
    subst is
    exact sound.put here called taken few same ⟨accepted, sock⟩ own others

theorem Sound.accept (sound : Sound p s) (few : FewEach p s (.accept address)) (obtained : Obtained p s (.accept address))
    (h : step p s (.accept address) = some s') : Sound p s' := by
  have few := few s' h
  have obtained : s.mSessionAcceptedCount + 1 < 2 ^ 32 := obtained
  have counted : (s.mSessionAcceptedCount + 1) % 2 ^ 64 = s.mSessionAcceptedCount + 1 := Nat.mod_eq_of_lt (by omega)
  obtain ⟨-, ⟨-, rfl⟩ | ⟨key, rest, v, v', stack, here, taken, rfl⟩⟩ := step_accept h
  · refine ⟨sound.range, sound.slots, sound.keys, sound.accepted, fun x member => ?_, sound.opened.2⟩
    have := sound.opened.1 x member
    exact ⟨this.1, Nat.le_succ_of_le this.2⟩
  rw [counted] at *
  have few := few v' (List.mem_set (List.getElem?_eq_some_iff.mp here).1 _)
  obtain ⟨before, latest⟩ := sound.accepted key v here
  have called : Called (p.config key) v (.accept (s.mSessionAcceptedCount + 1) (s.clients + 1) address) := by
    obtain ⟨_, run⟩ := sound.slots key v here
    refine ⟨by omega, fun t member sessionID caller => ?_⟩
    obtain ⟨n, issued, is_n, -⟩ := (Run.identified run).2.callers t member sessionID caller
    exact ⟨n, issued, is_n, by omega⟩
  obtain ⟨some_key, is⟩ := Session.step_accept taken
  have named : newSessionID (p.config key) (s.mSessionAcceptedCount + 1) % 2 ^ 32 = s.mSessionAcceptedCount + 1 := by
    rw [newSessionID_eq]
    omega
  refine ⟨?_, fun key' w at_key => ?_, fun key' w at_key => ?_, fun key' w at_key => ?_, fun x member => ?_, ?_⟩
  · have length : (s.put key v').mMaxSessionCount = s.mMaxSessionCount := by
      simp [NetServer.mMaxSessionCount, NetServer.put]
    have range := sound.range.1
    rw [← length] at range
    exact ⟨range, obtained⟩
  · exact sound.slot_step here called taken few at_key
  · show rest.count key' = w.unusedKeys
    rcases at_put here at_key with ⟨rfl, rfl⟩ | ⟨other, old⟩
    · have keys := sound.keys key' v here
      rw [stack, List.count_cons_self] at keys
      rw [is, ← keys]
      rfl
    · have keys := sound.keys key' w old
      rwa [stack, List.count_cons_of_ne (Ne.symm other)] at keys
  · show w.accepted ≤ s.mSessionAcceptedCount + 1 ∧ (_ → _ ∈ s.opened ++ [_])
    rcases at_put here at_key with ⟨rfl, rfl⟩ | ⟨other, old⟩
    · rw [is]
      exact ⟨Nat.le_refl _, fun _ => by simp⟩
    · obtain ⟨before, opened⟩ := sound.accepted key' w old
      exact ⟨by omega, fun begun => List.mem_append_left _ (opened begun)⟩
  · show _ ≤ s.mSessionAcceptedCount + 1 ∧ x.2 ≤ s.clients + 1
    rcases List.mem_append.mp member with old | new
    · have := sound.opened.1 x old
      omega
    · obtain rfl := List.mem_singleton.mp new
      exact ⟨by rw [named], Nat.le_refl _⟩
  · refine List.pairwise_append.mpr ⟨sound.opened.2, List.pairwise_singleton .., fun x old y new => ?_⟩
    obtain rfl := List.mem_singleton.mp new
    have := sound.opened.1 x old
    rw [named]
    simp only
    omega

theorem run_sound (run : Run (server p) (fun s l => FewEach p s l ∧ Obtained p s l) tr s) : Sound p s := by
  refine run.invariant_state (I := Sound p) (fun _ => Sound.init) fun s l s' sound ⟨few, obtained⟩ h => ?_
  cases l with
  | accept address => exact sound.accept few obtained h
  | call request sessionID => exact sound.call few obtained h
  | «at» key l => exact sound.at few h

/-! ### No data crosses -/

/-- Past `Init`, every slot holds packets of its present session only. -/
theorem run_owned (run : Run (server p) (fun s l => FewEach p s l ∧ Obtained p s l ∧ CountableEach p s) tr s) :
    ∀ key v, s.mSessionList[key]? = some v → Outgoing (p.config key) v := by
  refine run.invariant (I := fun _ s => ∀ key v, s.mSessionList[key]? = some v → Outgoing (p.config key) v)
    (fun s started key v here => .init (started.slots v (List.mem_of_getElem? here)).1) ?_
  intro tr s l s' before owned ⟨few, obtained, countable⟩ h key w at_key
  have few := few s' h
  have sound := run_sound (before.mono fun _ _ known => ⟨known.1, known.2.1⟩)
  rcases step_slots h with ⟨same, -⟩ | ⟨key', v, v', l', here, taken, list, -⟩
  · rw [same] at at_key
    exact owned key w at_key
  rw [list] at at_key few
  rcases at_put here at_key with ⟨rfl, rfl⟩ | ⟨-, old⟩
  · obtain ⟨_, slot_run⟩ := sound.slots key v here
    refine (owned key v here).step (Run.separate slot_run) (countable v (List.mem_of_getElem? here)) (fun v'' is => ?_) taken
    obtain rfl := Option.some.inj (taken.symm.trans is)
    exact few _ (List.mem_set (List.getElem?_eq_some_iff.mp here).1 _)
  · exact owned key w old

/-- What goes to `WSASend` was enqueued under the ID of the session on that socket, what goes to
`OnReceive` came from the socket of the session whose ID is passed, and sessions share neither. -/
theorem no_data_crosses (run : Run (server p) (fun s l => FewEach p s l ∧ Obtained p s l ∧ CountableEach p s) tr s)
    (taken : (u, .at key (.thread i ans)) ∈ tr) (here : u.mSessionList[key]? = some v) {t : Thread}
    (at_i : v.threads[i]? = some t) :
    (∀ wsabuf, t.pc = .wsaSend wsabuf → (v.ID, v.Socket) ∈ u.opened ∧ ∀ q ∈ wsabuf, q.sender = v.ID) ∧
      (∀ frame, t.pc = .onReceive frame → ∃ sock, (v.ID, sock) ∈ u.opened ∧ ∀ b ∈ frame, b.origin = sock) ∧
      (∀ x ∈ u.opened, ∀ y ∈ u.opened, x.1 = y.1 ∨ x.2 = y.2 → x = y) := by
  obtain ⟨_, _, before, -⟩ := run.mem taken
  have sound := run_sound (before.mono fun _ _ known => ⟨known.1, known.2.1⟩)
  obtain ⟨_, slot_run⟩ := sound.slots key v here
  have sep := Run.separate slot_run
  have owned := run_owned before key v here
  have member := List.mem_of_getElem? at_i
  have begun (acts : 0 < acting t.pc) : (newSessionID (p.config key) v.accepted, v.acceptedSocket) ∈ u.opened := by
    have live := (sep.identified.working sep.counts member acts).1
    have used : 0 < v.inits := (ReleaseCount.Core.live_eq_one.mp live).2
    exact (sound.accepted key v here).2 (run_begun slot_run (by omega))
  refine ⟨fun wsabuf is => ?_, fun frame is => ?_, fun x hx y hy same => ?_⟩
  · obtain ⟨named, socket, own⟩ := sep.send owned member is
    have opened := begun (by rw [is]; exact Nat.one_pos)
    rw [← named, ← socket] at opened
    exact ⟨opened, own⟩
  · obtain ⟨named, own⟩ := sep.receive member is
    have opened := begun (by rw [is]; exact Nat.one_pos)
    rw [← named] at opened
    exact ⟨_, opened, own⟩
  · obtain ⟨i, lt_i, rfl⟩ := List.mem_iff_getElem.mp hx
    obtain ⟨j, lt_j, rfl⟩ := List.mem_iff_getElem.mp hy
    have apart := List.pairwise_iff_getElem.mp sound.opened.2
    rcases Nat.lt_trichotomy i j with lt | rfl | lt
    · have := apart i j lt_i lt_j lt
      rcases same with same | same <;> omega
    · rfl
    · have := apart j i lt_j lt_i lt
      rcases same with same | same <;> omega

def firstPacket : List Label :=
  firstClient ++ .call (.sendPacket (some 100)) 1 :: List.replicate 13 (Label.at 0 (.thread 1 .go))

theorem first_packet_stays : ∃ (tr : List (NetServer × Label)) (u : NetServer) (v : Slot), tr.map Prod.snd = firstPacket ++ [.at 0 (.thread 1 .pending)] ∧
    (u, .at 0 (.thread 1 .pending)) ∈ tr ∧ u.mSessionList[0]? = some v ∧
    v.threads[1]? = some ⟨.api (.sendPacket 100) 1, .wsaSend [⟨100, 1⟩]⟩ ∧ (v.ID, v.Socket) ∈ u.opened := by
  have along : Along (server plainServer)
      (fun s l => FewEach plainServer s l ∧ Obtained plainServer s l ∧ CountableEach plainServer s) freshServer
      (firstPacket ++ [.at 0 (.thread 1 .pending)]) := by decide +kernel
  obtain ⟨s, sent, run⟩ := Run.along (.init freshServer_started) along
  have facts : (exec (server plainServer) freshServer firstPacket).map
      (fun s => (s.mSessionList[0]?).bind fun v => v.threads[1]?) =
      some (some ⟨.api (.sendPacket 100) 1, .wsaSend [⟨100, 1⟩]⟩) := by decide +kernel
  obtain ⟨u, reached, facts⟩ := Option.map_eq_some_iff.mp facts
  obtain ⟨v, here, at_1⟩ := Option.bind_eq_some_iff.mp facts
  have taken : (u, .at 0 (.thread 1 .pending)) ∈ trace (server plainServer) freshServer (firstPacket ++ [.at 0 (.thread 1 .pending)]) := by
    rw [trace_append reached]
    simp [trace]
  exact ⟨_, u, v, trace_labels sent, taken, here, at_1, ((no_data_crosses run taken here at_1).1 _ rfl).1⟩

/-! ### More callers than `IoCount` can count -/

/-- The slot of a server that has only one, from `Start` on. -/
def onlySlot : System Slot Session.Label where
  init v := v = unusedSlot
  step := Session.step plain

/-- What the server of that slot can do to it, under `Obtained`. -/
def Sole (v : Slot) : Session.Label → Prop
  | .accept count sock _ => count = v.accepted + 1 ∧ sock = v.acceptedSocket + 1 ∧ v.accepted + 1 < 2 ^ 32 ∧
      ∀ t ∈ v.threads, Role.accepts t.role = true → t.pc = .finished
  | .call _ sessionID => ∃ n ∈ v.issued, sessionID = newSessionID plain n
  | _ => True

instance (v : Slot) (l : Session.Label) : Decidable (Sole v l) :=
  match l with
  | .accept _ _ _ => inferInstanceAs (Decidable (_ ∧ _ ∧ _ ∧ ∀ t ∈ v.threads, _))
  | .call _ _ => inferInstanceAs (Decidable (∃ n ∈ v.issued, _))
  | .recvCompletes _ _ | .recvFails _ | .sendCompletes _ | .sendFails _ | .workRecv _ | .workSend _ | .workRelease _ | .thread _ _ =>
    .isTrue trivial

structure Single (v : Slot) (s : NetServer) : Prop where
  list : s.mSessionList = [v]
  keys : s.mUnusedSessionKeys = List.replicate v.unusedKeys 0
  count : s.mSessionAcceptedCount = v.accepted
  clients : s.clients = v.acceptedSocket
  key : v.SessionListKey = 0

theorem Single.here (single : Single v s) : s.mSessionList[0]? = some v := by simp [single.list]

theorem next_list_key {cfg : Config} {role : Role} {ans : Answer} (h : next cfg v role ans pc = some (w, pc'))
    (key : v.SessionListKey = cfg.key) : w.SessionListKey = cfg.key := by
  cases next_moves h with
  | initKey => rfl
  | _ => exact key

theorem Single.thread {ans : Answer} (single : Single v s) (h : Session.step plain v (.thread i ans) = some v') :
    ∃ s', step plainServer s (.at 0 (.thread i ans)) = some s' ∧ Single v' s' := by
  obtain ⟨t, u, pc', at_i, taken, rfl⟩ := Session.step_thread h
  obtain ⟨accepted, sock, -⟩ := next_accepted taken
  obtain ⟨list, count, clients, -⟩ := effect_same s v t.pc
  refine ⟨(effect s v t.pc).put 0 (v.moved u i t pc'), ?_, ⟨?_, ?_, ?_, ?_, next_list_key taken single.key⟩⟩
  · show (s.mSessionList[0]?).bind _ = _
    rw [single.here]
    show (v.threads[i]?).bind _ = _
    rw [at_i]
    show (Session.step plain v (.thread i ans)).map _ = _
    rw [h]
    rfl
  · show (effect s v t.pc).mSessionList.set 0 _ = _
    rw [list, single.list]
    rfl
  · show (effect s v t.pc).mUnusedSessionKeys = List.replicate u.unusedKeys 0
    rcases next_keys taken with ⟨again, push, more⟩ | ⟨nopush, still⟩
    · rcases effect_keys s v t.pc with ⟨-, -, pushed⟩ | ⟨nopush, -⟩
      · rw [pushed, more, if_pos (by exact single.key), single.key, single.keys]
        rfl
      · exact absurd push (nopush again)
    · rcases effect_keys s v t.pc with ⟨again, push, -⟩ | ⟨-, same⟩
      · exact absurd push (nopush again)
      · rw [same, still, single.keys]
  · exact count.trans (single.count.trans accepted.symm)
  · exact clients.trans (single.clients.trans sock.symm)

/-- The accept thread pops the slot's key for the next client. -/
theorem Single.accept (single : Single v s) (idle : ∀ t ∈ v.threads, Role.accepts t.role = true → t.pc = .finished)
    (counted : v.accepted + 1 < 2 ^ 64)
    (h : Session.step plain v (.accept (v.accepted + 1) (v.acceptedSocket + 1) address) = some v') :
    ∃ s', step plainServer s (.accept address) = some s' ∧ Single v' s' := by
  obtain ⟨some_key, is⟩ := Session.step_accept h
  obtain ⟨rest, keys⟩ := Nat.exists_eq_succ_of_ne_zero (Nat.ne_of_gt some_key)
  have waiting : Waiting s := (waiting_iff s).mpr fun w member => by
    obtain rfl : w = v := by simpa [single.list] using member
    exact idle
  have stack : s.mUnusedSessionKeys = 0 :: List.replicate rest 0 := by
    rw [single.keys, keys]
    rfl
  have counted : (s.mSessionAcceptedCount + 1) % 2 ^ 64 = v.accepted + 1 := by
    rw [single.count]
    omega
  refine ⟨{ s.put 0 v' with
      mUnusedSessionKeys := List.replicate rest 0
      mSessionAcceptedCount := v.accepted + 1
      clients := v.acceptedSocket + 1
      opened := s.opened ++ [(newSessionID plain (v.accepted + 1), v.acceptedSocket + 1)] }, ?_, ?_⟩
  · simp only [Server.step, if_pos waiting, stack, single.here, Option.bind_some, counted, single.clients]
    show (Session.step plain v _).map _ = _
    rw [h]
    rfl
  · refine ⟨by simp [NetServer.put, single.list], ?_, by rw [is], by rw [is], ?_⟩
    · rw [is]
      show _ = List.replicate (v.unusedKeys - 1) 0
      rw [keys]
      rfl
    · rw [is]
      exact single.key

theorem Single.elsewhere {l : Session.Label} (single : Single v s) (h : Session.step plain v l = some v')
    (outside : ∀ i ans, l ≠ .thread i ans) (noaccept : ∀ count sock address, l ≠ .accept count sock address) :
    (s.mSessionList[0]?).bind (fun v => (Session.step plain v l).map (s.put 0)) = some (s.put 0 v') ∧ Single v' (s.put 0 v') := by
  have key := ((Session.step_outside h outside).1.key).trans single.key
  obtain ⟨⟨accepted, sock, keys⟩, -⟩ := step_elsewhere h outside noaccept
  refine ⟨by simp [single.here, h], by simp [NetServer.put, single.list], ?_, ?_, ?_, key⟩
  · rw [keys]
    exact single.keys
  · rw [accepted]
    exact single.count
  · rw [sock]
    exact single.clients

theorem Single.step {l : Session.Label} (single : Single v s) (sole : Sole v l) (h : Session.step plain v l = some v') :
    ∃ l' s', Obtained plainServer s l' ∧ step plainServer s l' = some s' ∧ Single v' s' := by
  by_cases threaded : ∃ i ans, l = .thread i ans
  · obtain ⟨i, ans, rfl⟩ := threaded
    obtain ⟨s', taken, single⟩ := single.thread h
    exact ⟨.at 0 (.thread i ans), s', trivial, taken, single⟩
  have outside (i ans) : l ≠ .thread i ans := fun is => threaded ⟨i, ans, is⟩
  by_cases accepting : ∃ count sock address, l = .accept count sock address
  · obtain ⟨count, sock, address, rfl⟩ := accepting
    obtain ⟨rfl, rfl, few, idle⟩ := sole
    obtain ⟨s', taken, after⟩ := single.accept idle (by omega) h
    exact ⟨.accept address, s', by rw [← single.count] at few; exact few, taken, after⟩
  have noaccept (count sock address) : l ≠ .accept count sock address := fun is => accepting ⟨count, sock, address, is⟩
  obtain ⟨put, after⟩ := single.elsewhere h outside noaccept
  cases l with
  | accept count sock address => exact absurd rfl (noaccept count sock address)
  | thread i ans => exact absurd rfl (outside i ans)
  | call call sessionID =>
    obtain ⟨n, issued, rfl⟩ := sole
    have found := findSessionOrNull_of_issued (p := plainServer) single.here (by simp [NetServer.mMaxSessionCount, single.list]) n
    obtain ⟨request, is⟩ : ∃ request : Request, request.call = some call := by
      cases call with
      | sendPacket packet => exact ⟨.sendPacket (some packet), rfl⟩
      | disconnect => exact ⟨.disconnect, rfl⟩
      | sendAndDisconnect packet => exact ⟨.sendAndDisconnect (some packet), rfl⟩
      | getSessionAddress => exact ⟨.getSessionAddress, rfl⟩
    refine ⟨.call request (newSessionID plain n), _, ?_, ?_, after⟩
    · exact ⟨0, by simp [NetServer.mMaxSessionCount, single.list], v, single.here, n, issued, rfl⟩
    · have found : findSessionOrNull s (newSessionID plain n) = some 0 := found
      simp only [Server.step, is, found]
      exact put
  | recvCompletes j data => exact ⟨.at 0 (.recvCompletes j data), _, trivial, put, after⟩
  | recvFails j => exact ⟨.at 0 (.recvFails j), _, trivial, put, after⟩
  | sendCompletes j => exact ⟨.at 0 (.sendCompletes j), _, trivial, put, after⟩
  | sendFails j => exact ⟨.at 0 (.sendFails j), _, trivial, put, after⟩
  | workRecv j => exact ⟨.at 0 (.workRecv j), _, trivial, put, after⟩
  | workSend j => exact ⟨.at 0 (.workSend j), _, trivial, put, after⟩
  | workRelease j => exact ⟨.at 0 (.workRelease j), _, trivial, put, after⟩

theorem Single.few {l : Label} (single : Single v s) (taken : Server.step plainServer u l = some s) (few : references v < 2 ^ 31 - 1) :
    FewEach plainServer u l := by
  intro s' is w member
  obtain rfl := Option.some.inj (taken.symm.trans is)
  obtain rfl : w = v := by simpa [single.list] using member
  exact few

theorem Run.served (run : Run onlySlot Sole tr v) : ∃ tr' s, Run (server plainServer) (Obtained plainServer) tr' s ∧ Single v s := by
  refine run.follow (R := Single) (fun v start => ?_) fun v s l v' single sole h => single.step sole h
  obtain rfl : v = unusedSlot := start
  exact ⟨freshServer, freshServer_started, rfl, rfl, rfl, rfl, rfl⟩

/-- A session that has posted its `WSARecv`, a `SendPacket` before its `Enqueue`, and a caller in its guard. -/
def parkedSender : List Session.Label :=
  acceptRound 1 1 9 0 ++ .thread 0 .pending :: List.replicate 3 (Session.Label.thread 0 .go) ++
    .call (.sendPacket 100) 1 :: List.replicate 5 (Session.Label.thread 1 .go) ++ [.call .getSessionAddress 1, .thread 2 .go]

theorem parkedSender_end (reached : exec onlySlot unusedSlot parkedSender = some v) :
    (v.IoCount = 3 ∧ v.ID = 1 ∧ v.SessionListKey = 0 ∧ v.unusedKeys = 0) ∧ (v.issued = [1] ∧ v.accepted = 1 ∧ v.acceptedSocket = 1) ∧
      (v.bDisconnected = false ∧ v.bDisconnectRegistered = false) ∧
      (v.SendQueue = [] ∧ v.SendQueueCount = 0 ∧ v.RegisteredPacketCount = 0) ∧ v.threads = [⟨.accept 1 1 9, .finished⟩,
        ⟨.api (.sendPacket 100) 1, .callEnqueue⟩, ⟨.api .getSessionAddress 1, .callTestDisconnected⟩] := by
  have members : (exec onlySlot unusedSlot parkedSender).map (fun v => ((v.IoCount, v.ID, v.SessionListKey, v.unusedKeys),
      (v.issued, v.accepted, v.acceptedSocket), (v.bDisconnected, v.bDisconnectRegistered))) =
      some ((3, 1, 0, 0), ([1], 1, 1), (false, false)) := by decide +kernel
  have queues : (exec onlySlot unusedSlot parkedSender).map (fun v => ((v.SendQueue, v.SendQueueCount, v.RegisteredPacketCount),
      v.threads)) = some (([], 0, 0), [⟨.accept 1 1 9, .finished⟩,
        ⟨.api (.sendPacket 100) 1, .callEnqueue⟩, ⟨.api .getSessionAddress 1, .callTestDisconnected⟩]) := by decide +kernel
  rw [reached] at members queues
  simp only [Option.map_some, Option.some.injEq, Prod.mk.injEq] at members queues
  exact ⟨members.1, members.2.1, members.2.2, queues⟩

theorem drops_registered {role : Role} (k : Nat) (left : v.RegisteredPacketCount = i + k) :
    solo plain role (List.replicate (k + 1) .go) (v, .initDropRefs i) = some (v, .initRegisteredCount) := by
  induction k generalizing i with
  | zero => simp [solo, next, left]
  | succ k ih =>
    have more : next plain v role .go (.initDropRefs i) = some (v, .initDropRefs (i + 1)) := by simp [next, left]
    exact Option.bind_eq_some_iff.mpr ⟨_, more, ih (by omega)⟩

/-- `Init` leaves what is in a `SendQueue` whose count reads 0. -/
theorem reinitialises {m : Nat} (count sock : Nat) (zero : plain.getCount v.SendQueueCount = 0) (registered : v.RegisteredPacketCount = m) :
    solo plain (.accept count sock 9) (List.replicate (14 + m) .go) (v, .initClearFlag) = some ({ v with
      IoCount := v.IoCount &&& 0x7FFFFFFF, inits := v.inits + 1, ID := newSessionID plain count, Socket := sock, Address := 9
      bSendFlag := 0, SessionListKey := 0, bDisconnected := false, bDisconnectRegistered := false
      RecvBuffer := v.RecvBuffer.clearBuffer, RegisteredPacketCount := 0, issued := v.accepted :: v.issued },
      .onAcceptReturn) := by
  have steps : 14 + m = 9 + (1 + ((m + 1) + 3)) := by omega
  have drained (w : Slot) (same : w.SendQueueCount = v.SendQueueCount) :
      solo plain (.accept count sock 9) (List.replicate 1 .go) (w, .initDrain) = some (w, .initDropRefs 0) := by
    simp [solo, next, same, zero]
  rw [steps, ← List.replicate_append_replicate, solo_append, ← List.replicate_append_replicate, ← List.replicate_append_replicate]
  refine Option.bind_eq_some_iff.mpr ⟨({ v with
      IoCount := v.IoCount &&& 0x7FFFFFFF, inits := v.inits + 1, ID := newSessionID plain count, Socket := sock, Address := 9
      bSendFlag := 0, SessionListKey := 0, bDisconnected := false, bDisconnectRegistered := false
      RecvBuffer := v.RecvBuffer.clearBuffer }, .initDrain), rfl, ?_⟩
  rw [solo_append]
  refine Option.bind_eq_some_iff.mpr ⟨_, drained _ rfl, ?_⟩
  rw [solo_append]
  exact Option.bind_eq_some_iff.mpr ⟨_, drops_registered _ (registered.trans (Nat.zero_add _).symm), rfl⟩

/-- The accept thread initialises a released slot for the second session. -/
theorem accepts_again {m : Nat} (flag : v.IoCount = releaseFlag) (zero : plain.getCount v.SendQueueCount = 0)
    (registered : v.RegisteredPacketCount = m) : solo plain (.accept 2 2 9) (List.replicate (15 + m) .go) (v, .acceptIncrement) = some ({ v with
      IoCount := 1, inits := v.inits + 1, ID := 2, Socket := 2, Address := 9, bSendFlag := 0, SessionListKey := 0
      bDisconnected := false, bDisconnectRegistered := false, RecvBuffer := v.RecvBuffer.clearBuffer
      RegisteredPacketCount := 0, issued := v.accepted :: v.issued }, .onAcceptReturn) := by
  have one : inc32 v.IoCount &&& 0x7FFFFFFF = 1 := by rw [flag]; decide
  have id : newSessionID plain 2 = 2 := by decide
  have rest := reinitialises (v := { v with IoCount := inc32 v.IoCount }) 2 2 zero registered
  simp only [one, id] at rest
  rw [show 15 + m = 1 + (14 + m) by omega, ← List.replicate_append_replicate, solo_append]
  exact Option.bind_eq_some_iff.mpr ⟨_, rfl, rest⟩

/-- A packet goes from `Enqueue` to `WSASend`. -/
theorem packet_goes_out (one : v.IoCount = 1) (unclosed : v.bDisconnected = false ∧ v.bDisconnectRegistered = false)
    (drained : v.SendQueue = [] ∧ v.SendQueueCount = 0 ∧ v.RegisteredPacketCount = 0) (free : v.bSendFlag = 0) :
    solo plain (.api (.sendPacket 100) 1) (List.replicate 8 .go) (v, .callEnqueue) = some ({ v with
      IoCount := 2, bSendFlag := 1, RegisteredPacketCount := 1
      RegisteredPackets := fun i => if i = 0 then ⟨100, 1⟩ else v.RegisteredPackets i }, .wsaSend [⟨100, 1⟩]) := by
  obtain ⟨closed, registered⟩ := unclosed
  obtain ⟨queue, count, packets⟩ := drained
  cases v
  simp only at one closed registered queue count packets free
  subst one closed registered queue count packets free
  rfl

theorem goes (v : Slot) (i : Nat) (answers : List Answer) : ∀ l ∈ answers.map (Session.Label.thread i), Sole v l := by
  intro l member
  obtain ⟨ans, -, rfl⟩ := List.mem_map.mp member
  trivial

/-- The caller in its guard leaves after 2^32 - 2 others came, and takes the session with it. -/
theorem released_early : ∃ tr v rest, Run onlySlot Sole tr v ∧ v.IoCount = releaseFlag ∧
    (v.unusedKeys = 1 ∧ v.accepted = 1 ∧ v.acceptedSocket = 1) ∧
    (v.SendQueue = [] ∧ v.SendQueueCount = 0 ∧ v.RegisteredPacketCount = 0) ∧
    v.threads = ⟨.accept 1 1 9, .finished⟩ :: ⟨.api (.sendPacket 100) 1, .callEnqueue⟩ :: rest ∧
    ∀ t ∈ rest, Role.accepts t.role = false := by
  have along : Along onlySlot Sole unusedSlot parkedSender := by decide +kernel
  obtain ⟨v, reached, run⟩ := Run.along (.init rfl) along
  obtain ⟨⟨count, id, key, keys⟩, ⟨issued, accepted, sock⟩, unclosed, drained, threads⟩ := parkedSender_end reached
  have known : Knows plain v v.accepted 1 := by
    rw [accepted]
    exact ⟨1, by simp [issued], rfl, by decide⟩
  obtain ⟨tr, pcs, run⟩ := crowd_releases (S := onlySlot) [_, _] rfl
    (fun _ ⟨n, issued, is, _⟩ => ⟨n, issued, is⟩) (fun _ _ => trivial) run known (by omega) id key unclosed threads
  refine ⟨_, _, (Pc.finished :: pcs).map fun pc => ⟨.api .getSessionAddress 1, pc⟩, run, rfl,
    ⟨congrArg (· + 1) keys, accepted, sock⟩, drained, rfl, fun t member => ?_⟩
  obtain ⟨pc, -, rfl⟩ := List.mem_map.mp member
  rfl

theorem crowded_slot_mixes : ∃ tr v, Run onlySlot Sole tr v ∧ v.ID = 2 ∧
    v.threads[1]? = some ⟨.api (.sendPacket 100) 1, .wsaSend [⟨100, 1⟩]⟩ := by
  obtain ⟨tr, v, rest, run, flag, ⟨keys, accepted, sock⟩, drained, threads, callers⟩ := released_early
  have sole : Sole v (.accept 2 2 9) := by
    refine ⟨by omega, by omega, by omega, fun t member accepts => ?_⟩
    rw [threads] at member
    rcases List.mem_cons.mp member with rfl | member
    · rfl
    rcases List.mem_cons.mp member with rfl | member
    · cases accepts
    · rw [callers t member] at accepts
      cases accepts
  have popped : onlySlot.step v (.accept 2 2 9) = some ({ v with unusedKeys := 0, accepted := 2, acceptedSocket := 2 }.spawn
      (.accept 2 2 9) .acceptIncrement) := by
    simp [onlySlot, Session.step, keys]
  have run := run.step sole popped
  have again := exec_solo (S := onlySlot) rfl (i := v.threads.length) (t := ⟨.accept 2 2 9, .acceptIncrement⟩) (by simp [Slot.spawn])
    (accepts_again (v := { v with unusedKeys := 0, accepted := 2, acceptedSocket := 2 }.spawn (.accept 2 2 9) .acceptIncrement)
      flag (by simp [Slot.spawn, drained.2.1]) drained.2.2)
  obtain ⟨more, -, run⟩ := Run.exec run again fun u => goes u _ _
  have sent := exec_solo (S := onlySlot) rfl (i := 1) (t := ⟨.api (.sendPacket 100) 1, .callEnqueue⟩) (by simp [Slot.spawn, threads])
    (packet_goes_out (v := { v with
      IoCount := 1, inits := v.inits + 1, ID := 2, Socket := 2, Address := 9, bSendFlag := 0, SessionListKey := 0
      bDisconnected := false, bDisconnectRegistered := false, RecvBuffer := v.RecvBuffer.clearBuffer
      RegisteredPacketCount := 0, issued := 2 :: v.issued, unusedKeys := 0, accepted := 2, acceptedSocket := 2
      threads := (v.spawn (.accept 2 2 9) .acceptIncrement).threads.set v.threads.length ⟨.accept 2 2 9, .onAcceptReturn⟩ })
      rfl ⟨rfl, rfl⟩ ⟨drained.1, drained.2.1, rfl⟩ rfl)
  obtain ⟨more, -, run⟩ := Run.exec run sent fun u => goes u _ _
  refine ⟨_, _, run, rfl, ?_⟩
  simp [Slot.spawn, threads]

/-- A packet goes to `WSASend` on a session with another ID than it was enqueued with. -/
def Mixes (tr : List (NetServer × Label)) : Prop :=
  ∃ u key i ans v t wsabuf q, (u, .at key (.thread i ans)) ∈ tr ∧ u.mSessionList[key]? = some v ∧ v.threads[i]? = some t ∧
    t.pc = .wsaSend wsabuf ∧ q ∈ wsabuf ∧ q.sender ≠ v.ID

theorem Single.mixes (single : Single v s) (id : v.ID = 2) (at_i : v.threads[i]? = some ⟨role, .wsaSend [⟨100, 1⟩]⟩) :
    ∃ v' s', Session.step plain v (.thread i .pending) = some v' ∧ Server.step plainServer s (.at 0 (.thread i .pending)) = some s' ∧
      Single v' s' ∧ ∀ tr, Mixes (tr ++ [(s, .at 0 (.thread i .pending))]) := by
  have sends : Session.step plain v (.thread i .pending) = some ({ v with
      sendIo := v.sendIo ++ [⟨v.Socket, [⟨100, 1⟩], .pending false⟩]
      threads := v.threads.set i ⟨role, .sendTestCancel⟩ }) := by
    simp [Session.step, at_i, next]
  obtain ⟨s', sent, after⟩ := single.thread sends
  refine ⟨_, s', sends, sent, after, fun tr => ⟨s, 0, i, .pending, v, _, [⟨100, 1⟩], ⟨100, 1⟩, by simp, single.here, at_i, rfl, by simp, ?_⟩⟩
  rw [id]
  decide

/-- Once `IoCount` has wrapped around, a packet for the first session goes out on the second one's socket. -/
theorem crowded_server_mixes : ∃ (tr : List (NetServer × Label)) (s : NetServer), Run (server plainServer) (Obtained plainServer) tr s ∧ Mixes tr := by
  obtain ⟨_, v, run, id, at_1⟩ := crowded_slot_mixes
  obtain ⟨tr, s, run, single⟩ := Run.served run
  obtain ⟨v', s', -, sent, -, mixes⟩ := single.mixes id at_1
  have obtained : Obtained plainServer s (.at 0 (.thread 1 .pending)) := trivial
  exact ⟨_, s', run.step obtained sent, mixes _⟩

/-! ### More packets than `GetCount` can count -/

theorem Run.step_few {l : Session.Label} (run : Run onlySlot (fun v l => Few plain v l ∧ Sole v l) tr v) (room : references v + 1 < 2 ^ 31 - 1)
    (sole : Sole v l) (h : Session.step plain v l = some w) :
    Run onlySlot (fun v l => Few plain v l ∧ Sole v l) (tr ++ [(v, l)]) w ∧ references w ≤ references v + 1 := by
  have bound := step_references h
  refine ⟨run.step ⟨fun u taken => ?_, sole⟩ h, bound⟩
  obtain rfl := Option.some.inj (h.symm.trans taken)
  omega

theorem Run.exec_few {ls : List Session.Label} (run : Run onlySlot (fun v l => Few plain v l ∧ Sole v l) tr v) (e : exec onlySlot v ls = some w)
    (sole : ∀ u, ∀ l ∈ ls, Sole u l) (room : references v + ls.length < 2 ^ 31 - 1) :
    ∃ tr', Run onlySlot (fun v l => Few plain v l ∧ Sole v l) tr' w ∧ references w ≤ references v + ls.length := by
  induction ls generalizing tr v with
  | nil =>
    obtain rfl := Option.some.inj e
    exact ⟨tr, run, Nat.le_refl _⟩
  | cons l ls ih =>
    obtain ⟨u, taken, e⟩ := Option.bind_eq_some_iff.mp e
    rw [List.length_cons] at room ⊢
    obtain ⟨run, bound⟩ := Run.step_few run (by omega) (sole v l (.head _)) taken
    obtain ⟨tr', run, after⟩ := ih run e (fun u l member => sole u l (.tail _ member)) (by omega)
    exact ⟨tr', run, by omega⟩

/-- A session whose first packet could not be sent: `bSendFlag` stays set, and `n` more packets wait behind it. -/
structure Clogged (n : Nat) (v : Slot) : Prop where
  count : v.IoCount = 1 ∧ references v = 1
  names : v.ID = 1 ∧ v.SessionListKey = 0 ∧ v.issued = [1]
  owner : v.unusedKeys = 0 ∧ v.accepted = 1 ∧ v.acceptedSocket = 1
  unclosed : v.bDisconnected = false ∧ v.bDisconnectRegistered = false
  flag : v.bSendFlag = 1 ∧ v.RegisteredPacketCount = 1
  queue : v.SendQueue = List.replicate n ⟨100, 1⟩ ∧ v.SendQueueCount = n
  receives : v.recvIo.map RecvIo.status = [.pending false]
  accepts : ∀ t ∈ v.threads, Role.accepts t.role = true → t.pc = .finished

def cloggedSend : List Session.Label :=
  acceptRound 1 1 9 0 ++ .thread 0 .pending :: List.replicate 3 (Session.Label.thread 0 .go) ++
    .call (.sendPacket 100) 1 :: List.replicate 13 (Session.Label.thread 1 .go) ++ .thread 1 .reset :: List.replicate 4 (Session.Label.thread 1 .go)

theorem cloggedSend_clogs : ∃ tr v, Run onlySlot (fun v l => Few plain v l ∧ Sole v l) tr v ∧ Clogged 0 v := by
  have along : Along onlySlot (fun v l => Few plain v l ∧ Sole v l) unusedSlot cloggedSend := by decide +kernel
  obtain ⟨v, reached, run⟩ := Run.along (.init rfl) along
  refine ⟨_, v, run, ?_⟩
  have members : (exec onlySlot unusedSlot cloggedSend).map (fun v => ((v.IoCount, references v), (v.ID, v.SessionListKey, v.issued),
      (v.unusedKeys, v.accepted, v.acceptedSocket))) = some ((1, 1), (1, 0, [1]), (0, 1, 1)) := by decide +kernel
  have flags : (exec onlySlot unusedSlot cloggedSend).map (fun v => ((v.bDisconnected, v.bDisconnectRegistered),
      (v.bSendFlag, v.RegisteredPacketCount), (v.SendQueue, v.SendQueueCount))) = some ((false, false), (1, 1), ([], 0)) := by
    decide +kernel
  have rest : (exec onlySlot unusedSlot cloggedSend).map (fun v => (v.recvIo.map RecvIo.status, v.threads)) =
      some ([.pending false], [⟨.accept 1 1 9, .finished⟩, ⟨.api (.sendPacket 100) 1, .finished⟩]) := by decide +kernel
  rw [reached] at members flags rest
  simp only [Option.map_some, Option.some.injEq, Prod.mk.injEq] at members flags rest
  obtain ⟨count, names, owner⟩ := members
  obtain ⟨unclosed, flag, queue⟩ := flags
  exact ⟨count, names, owner, unclosed, flag, queue, rest.1, by simp [rest.2]⟩

theorem passes_guard (one : v.IoCount = 1) (unclosed : v.bDisconnected = false ∧ v.bDisconnectRegistered = false) :
    solo plain role (List.replicate 3 .go) (v, .callIncrement) = some ({ v with IoCount := 2 }, .callTestID) := by
  obtain ⟨closed, registered⟩ := unclosed
  cases v
  simp only at one closed registered
  subst one closed registered
  rfl

theorem enqueues (one : v.IoCount = 1) (id : v.ID = sessionID) (unclosed : v.bDisconnected = false ∧ v.bDisconnectRegistered = false) :
    solo plain (.api (.sendPacket packet) sessionID) (List.replicate 6 .go) (v, .callIncrement) = some ({ v with
      IoCount := 2, SendQueue := v.SendQueue ++ [⟨packet, sessionID⟩], SendQueueCount := v.SendQueueCount + 1 }, .sendCount) := by
  have tests : next plain { v with IoCount := 2 } (.api (.sendPacket packet) sessionID) .go .callTestID =
      some ({ v with IoCount := 2 }, .callAddRef) := by simp [next, id]
  refine (solo_append (List.replicate 3 .go) (List.replicate 3 .go) _).trans ?_
  rw [passes_guard one unclosed, Option.bind_some, List.replicate_succ, solo, tests]
  rfl

theorem caller_leaves (two : v.IoCount = 2) :
    solo plain role (List.replicate 2 .go) (v, .decCas false) = some ({ v with IoCount := 1 }, .finished) := by
  simp [solo, next, two, dec32, decReturn]

theorem finds_flag (flag : v.bSendFlag = 1) (unclosed : v.bDisconnected = false ∧ v.bDisconnectRegistered = false) :
    solo plain role (List.replicate 3 .go) (v, .sendTestDisconnected) = some (v, .decCas false) := by
  obtain ⟨closed, registered⟩ := unclosed
  cases v
  simp only at closed registered flag
  subst closed registered flag
  rfl

theorem leaves_packet (role : Role) (two : v.IoCount = 2) (flag : v.bSendFlag = 1) (unclosed : v.bDisconnected = false ∧ v.bDisconnectRegistered = false) :
    ∃ n ≤ 6, solo plain role (List.replicate n .go) (v, .sendCount) = some ({ v with IoCount := 1 }, .finished) := by
  by_cases zero : plain.getCount v.SendQueueCount = 0
  · have ends : next plain v role .go .sendCount = some (v, .decCas false) := by simp [next, zero]
    exact ⟨3, by decide, Option.bind_eq_some_iff.mpr ⟨_, ends, caller_leaves two⟩⟩
  · have goes_on : next plain v role .go .sendCount = some (v, .sendTestDisconnected) := by simp [next, zero]
    refine ⟨6, Nat.le_refl _, Option.bind_eq_some_iff.mpr ⟨_, goes_on, ?_⟩⟩
    exact (solo_append (List.replicate 3 .go) (List.replicate 2 .go) _).trans
      (Option.bind_eq_some_iff.mpr ⟨_, finds_flag flag unclosed, caller_leaves two⟩)

theorem packet_waits (one : v.IoCount = 1) (id : v.ID = 1) (flag : v.bSendFlag = 1)
    (unclosed : v.bDisconnected = false ∧ v.bDisconnectRegistered = false) :
    ∃ n ≤ 12, solo plain (.api (.sendPacket 100) 1) (List.replicate n .go) (v, .callIncrement) = some ({ v with
      IoCount := 1, SendQueue := v.SendQueue ++ [⟨100, 1⟩], SendQueueCount := v.SendQueueCount + 1 }, .finished) := by
  obtain ⟨n, few, left⟩ := leaves_packet (.api (.sendPacket 100) 1) (v := { v with
    IoCount := 2, SendQueue := v.SendQueue ++ [⟨100, 1⟩], SendQueueCount := v.SendQueueCount + 1 }) rfl flag unclosed
  refine ⟨6 + n, by omega, ?_⟩
  rw [← List.replicate_append_replicate, solo_append, enqueues one id unclosed]
  exact left

theorem Clogged.more (run : Run onlySlot (fun v l => Few plain v l ∧ Sole v l) tr v) (clogged : Clogged n v) :
    ∃ tr' v', Run onlySlot (fun v l => Few plain v l ∧ Sole v l) tr' v' ∧ Clogged (n + 1) v' := by
  obtain ⟨⟨count, refs⟩, names, owner, unclosed, flag, queue, receives, accepts⟩ := clogged
  have calls : Sole v (.call (.sendPacket 100) 1) := ⟨1, by simp [names.2.2], by decide⟩
  have same : references (v.spawn (.api (.sendPacket 100) 1) .callIncrement) = 1 := by
    rw [← refs]
    simp [references, Slot.spawn, stage]
  obtain ⟨run, -⟩ := Run.step_few run (by omega) calls rfl
  obtain ⟨k, few, waits⟩ := packet_waits (v := v.spawn (.api (.sendPacket 100) 1) .callIncrement) count names.1 flag.1 unclosed
  have sent := exec_solo (S := onlySlot) rfl (i := v.threads.length) (t := ⟨.api (.sendPacket 100) 1, .callIncrement⟩) (by simp [Slot.spawn]) waits
  obtain ⟨tr, run, -⟩ := Run.exec_few run sent (fun u => goes u _ _) (by rw [same]; simp; omega)
  refine ⟨tr, _, run, ⟨rfl, ?_⟩, names, owner, unclosed, flag, ⟨?_, ?_⟩, receives, ?_⟩
  · rw [← refs]
    simp [references, Slot.spawn, stage]
  · simp [Slot.spawn, queue.1, List.replicate_succ']
  · simp [Slot.spawn, queue.2]
  · intro t member
    simp only [Slot.spawn] at member
    rw [List.set_append_right _ _ (Nat.le_refl _)] at member
    rcases List.mem_append.mp member with old | new
    · exact accepts t old
    · simp at new
      simp [new, Role.accepts]

theorem clogs (n : Nat) : ∃ tr v, Run onlySlot (fun v l => Few plain v l ∧ Sole v l) tr v ∧ Clogged n v := by
  induction n with
  | zero => exact cloggedSend_clogs
  | succ n ih =>
    obtain ⟨tr, v, run, clogged⟩ := ih
    exact clogged.more run

/-- The last reference goes with a failed receive. -/
theorem worker_releases (one : v.IoCount = 1) (id : v.ID = 1) (key : v.SessionListKey = 0) (unclosed : v.bDisconnected = false) :
    solo plain .worker (List.replicate 7 .go) (v, .decCas false) = some ({ v with
      IoCount := releaseFlag, bDisconnected := true, posted := v.posted ++ [1], unusedKeys := v.unusedKeys + 1 }, .finished) := by
  cases v
  simp only at one id key unclosed
  subst one id key unclosed
  rfl

theorem Clogged.ends (run : Run onlySlot (fun v l => Few plain v l ∧ Sole v l) tr v) (clogged : Clogged n v) :
    ∃ tr' v', Run onlySlot (fun v l => Few plain v l ∧ Sole v l) tr' v' ∧ (v'.IoCount = releaseFlag ∧ references v' ≤ 1) ∧
      (v'.unusedKeys = 1 ∧ v'.accepted = 1 ∧ v'.acceptedSocket = 1) ∧
      (v'.SendQueue = List.replicate n ⟨100, 1⟩ ∧ v'.SendQueueCount = n ∧ v'.RegisteredPacketCount = 1) ∧
      ∀ t ∈ v'.threads, Role.accepts t.role = true → t.pc = .finished := by
  obtain ⟨⟨count, refs⟩, names, owner, unclosed, flag, queue, receives, accepts⟩ := clogged
  obtain ⟨io, is, status⟩ : ∃ io, v.recvIo = [io] ∧ io.status = .pending false := by
    obtain ⟨io, is, status⟩ := List.map_eq_singleton_iff.mp receives
    exact ⟨io, is, status⟩
  obtain ⟨sock, buf, len, _⟩ := io
  cases status
  have fails : exec onlySlot v [.recvFails 0, .workRecv 0] = some { v with
      recvIo := [], threads := v.threads ++ [⟨.worker, .decCas false⟩] } := by
    simp [exec, onlySlot, Session.step, is, Slot.spawn]
  obtain ⟨tr, run, -⟩ := Run.exec_few run fails (fun u l member => by
    rcases List.mem_cons.mp member with rfl | member
    · trivial
    · obtain rfl := List.mem_singleton.mp member
      trivial) (by rw [refs]; decide)
  have same : references { v with recvIo := [], threads := v.threads ++ [⟨.worker, .decCas false⟩] } = 1 := by
    rw [← refs]
    simp [references, stage, is]
  have released := exec_solo (S := onlySlot) rfl (i := v.threads.length) (t := ⟨.worker, .decCas false⟩) (by simp)
    (worker_releases (v := { v with recvIo := [], threads := v.threads ++ [⟨.worker, .decCas false⟩] }) count names.1 names.2.1 unclosed.1)
  obtain ⟨tr, run, -⟩ := Run.exec_few run released (fun u => goes u _ _) (by rw [same]; simp)
  refine ⟨tr, _, run, ⟨rfl, ?_⟩, ⟨congrArg (· + 1) owner.1, owner.2⟩, ⟨queue.1, queue.2, flag.2⟩, ?_⟩
  · rw [← same]
    simp [references, stage]
  · intro t member
    rw [List.set_append_right _ _ (Nat.le_refl _)] at member
    rcases List.mem_append.mp member with old | new
    · exact accepts t old
    · simp at new
      simp [new, Role.accepts]

theorem wins_flag (free : v.bSendFlag = 0) (unclosed : v.bDisconnected = false ∧ v.bDisconnectRegistered = false) :
    solo plain role (List.replicate 3 .go) (v, .sendTestDisconnected) = some ({ v with bSendFlag := 1 }, .sendRecount) := by
  obtain ⟨closed, registered⟩ := unclosed
  cases v
  simp only at closed registered free
  subst closed registered free
  rfl

theorem sends_first (role : Role) (rest : List Queued) {q : Queued} (two : v.IoCount = 2) (free : v.bSendFlag = 0)
    (unclosed : v.bDisconnected = false ∧ v.bDisconnectRegistered = false)
    (one : plain.getCount v.SendQueueCount = 1) (queue : v.SendQueue = q :: rest) (registered : v.RegisteredPacketCount = 0) :
    solo plain role (List.replicate 7 .go) (v, .sendCount) = some ({ v with
      IoCount := 3, bSendFlag := 1, SendQueue := rest, SendQueueCount := v.SendQueueCount - 1, RegisteredPacketCount := 1
      RegisteredPackets := fun i => if i = 0 then q else v.RegisteredPackets i }, .wsaSend [q]) := by
  have goes_on : next plain v role .go .sendCount = some (v, .sendTestDisconnected) := by simp [next, one]
  have recounts : next plain { v with bSendFlag := 1 } role .go .sendRecount = some ({ v with bSendFlag := 1 }, .sendDequeue 1 []) := by
    simp [next, one]
  have dequeues : next plain { v with bSendFlag := 1 } role .go (.sendDequeue 1 []) = some ({ v with
      bSendFlag := 1, SendQueue := rest, SendQueueCount := v.SendQueueCount - 1, RegisteredPacketCount := 1
      RegisteredPackets := fun i => if i = 0 then q else v.RegisteredPackets i }, .sendDequeue 0 [q]) := by
    simp [next, one, queue, registered, maxWsaBufCount]
  refine Option.bind_eq_some_iff.mpr ⟨_, goes_on, (solo_append (List.replicate 3 .go) (List.replicate 3 .go) _).trans ?_⟩
  rw [wins_flag free unclosed, Option.bind_some]
  refine Option.bind_eq_some_iff.mpr ⟨_, recounts, Option.bind_eq_some_iff.mpr ⟨_, dequeues, ?_⟩⟩
  simp [solo, next, two, inc32]

/-- The slot goes to the second client with all that is in its queue. -/
theorem accepted_undrained (run : Run onlySlot (fun v l => Few plain v l ∧ Sole v l) tr v) (flag : v.IoCount = releaseFlag)
    (refs : references v ≤ 1) (owner : v.unusedKeys = 1 ∧ v.accepted = 1 ∧ v.acceptedSocket = 1)
    (zero : plain.getCount v.SendQueueCount = 0) (registered : v.RegisteredPacketCount = 1)
    (accepts : ∀ t ∈ v.threads, Role.accepts t.role = true → t.pc = .finished) :
    ∃ tr' v', Run onlySlot (fun v l => Few plain v l ∧ Sole v l) tr' v' ∧ references v' < 2 ^ 8 ∧ (v'.IoCount = 1 ∧ v'.ID = 2 ∧ 2 ∈ v'.issued) ∧
      (v'.bDisconnected = false ∧ v'.bDisconnectRegistered = false) ∧ (v'.bSendFlag = 0 ∧ v'.RegisteredPacketCount = 0) ∧
      v'.SendQueue = v.SendQueue ∧ v'.SendQueueCount = v.SendQueueCount := by
  have sole : Sole v (.accept 2 2 9) := ⟨by omega, by omega, by omega, accepts⟩
  have popped : Session.step plain v (.accept 2 2 9) = some ({ v with unusedKeys := 0, accepted := 2, acceptedSocket := 2 }.spawn
      (.accept 2 2 9) .acceptIncrement) := by
    simp [Session.step, owner.1]
  obtain ⟨run, bound⟩ := Run.step_few run (by omega) sole popped
  have again := exec_solo (S := onlySlot) rfl (i := v.threads.length) (t := ⟨.accept 2 2 9, .acceptIncrement⟩) (by simp [Slot.spawn])
    (accepts_again (v := { v with unusedKeys := 0, accepted := 2, acceptedSocket := 2 }.spawn (.accept 2 2 9) .acceptIncrement)
      flag zero registered)
  obtain ⟨tr, run, after⟩ := Run.exec_few run again (fun u => goes u _ _) (by simp; omega)
  rw [List.length_map, List.length_replicate] at after
  exact ⟨tr, _, run, Nat.lt_of_le_of_lt after (by omega), ⟨rfl, rfl, List.mem_cons_self⟩, ⟨rfl, rfl⟩, ⟨rfl, rfl⟩, rfl, rfl⟩

theorem wrapped_slot_mixes : ∃ (tr : List (Slot × Session.Label)) (v : Slot) (i : Nat), Run onlySlot (fun v l => Few plain v l ∧ Sole v l) tr v ∧
    v.ID = 2 ∧ references v < 2 ^ 16 ∧ v.threads[i]? = some ⟨.api (.sendPacket 200) 2, .wsaSend [⟨100, 1⟩]⟩ := by
  obtain ⟨tr, w, run, clogged⟩ := clogs (2 ^ 32)
  obtain ⟨tr, v, run, ⟨flag, refs⟩, owner, ⟨queue, length, registered⟩, accepts⟩ := clogged.ends run
  obtain ⟨tr, v, run, refs, ⟨count, id, issued⟩, unclosed, ⟨free, none⟩, queue', length'⟩ :=
    accepted_undrained run flag refs owner (by rw [length]; decide) registered accepts
  obtain ⟨rest, first⟩ : ∃ rest, v.SendQueue = ⟨100, 1⟩ :: rest := ⟨_, (queue'.trans queue).trans List.replicate_succ⟩
  have calls : Sole v (.call (.sendPacket 200) 2) := ⟨2, issued, by decide⟩
  obtain ⟨run, bound⟩ := Run.step_few run (by omega) calls rfl
  have one : plain.getCount (v.SendQueueCount + 1) = 1 := by
    rw [length', length]
    decide
  have sends := sends_first (.api (.sendPacket 200) 2) (rest ++ [⟨200, 2⟩]) (v := { v.spawn (.api (.sendPacket 200) 2) .callIncrement with
    IoCount := 2, SendQueue := v.SendQueue ++ [⟨200, 2⟩], SendQueueCount := v.SendQueueCount + 1 }) rfl free unclosed
    one (by rw [first]; rfl) none
  have whole := (solo_append (List.replicate 6 .go) (List.replicate 7 .go) _).trans
    (Option.bind_eq_some_iff.mpr ⟨_, enqueues (v := v.spawn (.api (.sendPacket 200) 2) .callIncrement) count id unclosed, sends⟩)
  have sent := exec_solo (S := onlySlot) rfl (i := v.threads.length) (t := ⟨.api (.sendPacket 200) 2, .callIncrement⟩) (by simp [Slot.spawn]) whole
  obtain ⟨tr, run, after⟩ := Run.exec_few run sent (fun u => goes u _ _) (by simp; omega)
  rw [List.length_map, List.length_append, List.length_replicate, List.length_replicate] at after
  exact ⟨tr, _, v.threads.length, run, id, Nat.lt_of_le_of_lt after (by omega), by simp [Slot.spawn]⟩

/-- With few references the server of the slot goes its way too. -/
theorem Run.served_few (run : Run onlySlot (fun v l => Few plain v l ∧ Sole v l) tr v) :
    ∃ tr' s, Run (server plainServer) (fun s l => FewEach plainServer s l ∧ Obtained plainServer s l) tr' s ∧ Single v s := by
  refine run.follow (R := Single) (fun v start => ?_) fun v s l v' single ⟨few, sole⟩ h => ?_
  · obtain rfl : v = unusedSlot := start
    exact ⟨freshServer, freshServer_started, rfl, rfl, rfl, rfl, rfl⟩
  · obtain ⟨l', s', obtained, taken, after⟩ := single.step sole h
    exact ⟨l', s', ⟨after.few taken (few v' h), obtained⟩, taken, after⟩

/-- Once a count has wrapped around, `Init` leaves the packets of the first session to the second one. -/
theorem wrapped_server_mixes : ∃ (tr : List (NetServer × Label)) (s : NetServer),
    Run (server plainServer) (fun s l => FewEach plainServer s l ∧ Obtained plainServer s l) tr s ∧ Mixes tr := by
  obtain ⟨_, v, i, run, id, refs, at_i⟩ := wrapped_slot_mixes
  obtain ⟨tr, s, run, single⟩ := Run.served_few run
  obtain ⟨v', s', sends, sent, after, mixes⟩ := single.mixes id at_i
  have bound := step_references sends
  exact ⟨_, s', run.step ⟨after.few sent (by omega), trivial⟩ sent, mixes _⟩

/-- Neither bound can go: past 2^32 references, and past 2^32 packets in a queue, packets of one client
are sent to the next. -/
theorem overflows_mix :
    (∃ (tr : List (NetServer × Label)) (s : NetServer), Run (server plainServer) (Obtained plainServer) tr s ∧ Mixes tr) ∧
      ∃ (tr : List (NetServer × Label)) (s : NetServer),
        Run (server plainServer) (fun s l => FewEach plainServer s l ∧ Obtained plainServer s l) tr s ∧ Mixes tr :=
  ⟨crowded_server_mixes, wrapped_server_mixes⟩

end WanNet.Server
