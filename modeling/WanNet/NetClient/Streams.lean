import WanNet.NetClient.Sockets

/-!
What a recv thread delivers of the bytes that came in on its connection.
-/

namespace WanNet.NetClient
open Transition Threads Framing

/-- A call that has returned, or a recv thread that has called `OnDisconnect`. -/
def Thread.over : Thread → Bool
  | .connect (.returned _) | .disconnect _ | .recvThread _ (.closeSocket _) _ | .recvThread _ .returned _ => true
  | _ => false

/-- `Connect` is called when the recv threads before have called `OnDisconnect`. -/
def InTurn (s : Client) : Label → Prop
  | .connect => ∀ t ∈ s.threads, t.over
  | _ => True

/-- A recv thread starts on an empty ring, and every `recv` leaves a cell of it free. -/
def CleanRing (s : Client) : Label → Prop
  | .thread i answer =>
    match s.threads[i]?, answer with
    | some (.connect .startThread), .success true => s.mRecvBuffer.getUseSize = 0
    | some (.recvThread _ (.recv _) _), .bytes data => (data.length : Int) ≤ s.mRecvBuffer.getFreeSize
    | _, _ => True
  | _ => True

instance (s : Client) (l : Label) : Decidable (InTurn s l) := by
  unfold InTurn
  split <;> infer_instance

def Thread.atRecv : Thread → Bool
  | .recvThread _ (.recv _) _ => true
  | _ => false

theorem cleanRing_success (s : Client) (i : Nat) (ok : Bool) : CleanRing s (.thread i (.success ok)) ↔
    (ok = true → s.threads[i]? = some (.connect .startThread) → s.mRecvBuffer.getUseSize = 0) := by
  simp only [CleanRing]
  generalize s.threads[i]? = t
  split
  next same => simp [Answer.success.inj same]
  next wrong => cases wrong
  next other _ =>
    refine ⟨?_, fun _ => trivial⟩
    rintro - rfl rfl
    exact (other rfl rfl).elim

theorem cleanRing_bytes (s : Client) (i : Nat) (data : List UInt8) : CleanRing s (.thread i (.bytes data)) ↔
    ∀ t ∈ s.threads[i]?, t.atRecv = true → (data.length : Int) ≤ s.mRecvBuffer.getFreeSize := by
  simp only [CleanRing]
  generalize s.threads[i]? = t
  split
  next wrong => cases wrong
  next same =>
    cases same
    simp [Thread.atRecv]
  next other =>
    refine ⟨fun _ t is receives => ?_, fun _ => trivial⟩
    unfold Thread.atRecv at receives
    split at receives
    · exact (other _ _ _ _ is rfl).elim
    · cases receives

theorem cleanRing_other (s : Client) (i : Nat) {answer : Answer} (no_success : ∀ ok, answer ≠ .success ok)
    (no_bytes : ∀ data, answer ≠ .bytes data) : CleanRing s (.thread i answer) := by
  simp only [CleanRing]
  split
  next => exact absurd rfl (no_success _)
  next => exact absurd rfl (no_bytes _)
  next => trivial

instance (s : Client) (l : Label) : Decidable (CleanRing s l) :=
  match l with
  | .connect | .disconnect => .isTrue trivial
  | .thread i .none | .thread i (.socket _) => .isTrue (cleanRing_other s i (by simp) (by simp))
  | .thread i (.success ok) => decidable_of_iff' _ (cleanRing_success s i ok)
  | .thread i (.bytes data) => decidable_of_iff' _ (cleanRing_bytes s i data)

def packets (stream : List UInt8) : List (List UInt8) := ((format Serializer.decode).scan stream).1

/-- The connection of a recv thread, with what it has delivered. -/
def Thread.serves : Thread → Option (Nat × List (List UInt8))
  | .recvThread connection _ delivered => some (connection, delivered)
  | _ => none

def Thread.reading : Thread → Bool
  | .recvThread _ .readSocket _ | .recvThread _ (.recv _) _ => true
  | _ => false

/-- A `Connect` that has not started its recv thread. -/
def Thread.starting : Thread → Bool
  | .connect .writeConnected | .connect (.returned _) => false
  | .connect _ => true
  | _ => false

structure Streams (s : Client) : Prop where
  delivered : ∀ (i : Nat) (t : Thread) (c : Nat) (d : List (List UInt8)), s.threads[i]? = some t → t.serves = some (c, d) →
    d = packets (s.streams c)
  left : s.died = false → ∀ (i : Nat) (t : Thread) (c : Nat) (d : List (List UInt8)), s.threads[i]? = some t →
    t.serves = some (c, d) → t.reading → ((format Serializer.decode).scan (s.streams c)).2 = some s.mRecvBuffer.contents
  silent : ∀ (i : Nat) (t : Thread), s.threads[i]? = some t → t.starting → s.streams i = []
  unmade : ∀ c, s.threads.length ≤ c → s.streams c = []
  started : ∀ (i : Nat) (t : Thread) (c : Nat) (d : List (List UInt8)), s.threads[i]? = some t → t.serves = some (c, d) →
    ∃ x, s.threads[c]? = some x ∧ x.starting = false
  only : ∀ (i j : Nat) (t v : Thread) (c : Nat) (d d' : List (List UInt8)), s.threads[i]? = some t → s.threads[j]? = some v →
    t.serves = some (c, d) → v.serves = some (c, d') → i = j

/-- While a `Connect` runs, everything else is over or its recv thread. -/
def Alone (s : Client) : Prop :=
  ∀ (i : Nat) (pc : Connect), s.threads[i]? = some (.connect pc) → (Thread.connect pc).over = false →
    ∀ (j : Nat) (x : Thread), j ≠ i → s.threads[j]? = some x → x.over ∨ ∃ d, x.serves = some (i, d)

variable {s u : Client} {t v : Thread} {i j c h : Nat} {l : Label} {d : List (List UInt8)}

theorem Streams.set (st : Streams s) (at_i : s.threads[i]? = some t) (serves : v.serves.map Prod.fst = t.serves.map Prod.fst)
    (starting : v.starting → t.starting) (others : ∀ c, t.serves.map Prod.fst ≠ some c → u.streams c = s.streams c)
    (mine : ∀ c d, v.serves = some (c, d) → d = packets (u.streams c) ∧
      (u.died = false → v.reading → ((format Serializer.decode).scan (u.streams c)).2 = some u.mRecvBuffer.contents))
    (left : u.died = false → s.died = false ∧
      (u.mRecvBuffer = s.mRecvBuffer ∨ ∀ (j : Nat) (x : Thread), j ≠ i → s.threads[j]? = some x → x.reading = false)) :
    Streams { u with threads := s.threads.set i v } := by
  have lt := (List.getElem?_eq_some_iff.mp at_i).1
  have mine_before {c : Nat} {d : List (List UInt8)} (is : v.serves = some (c, d)) : ∃ d', t.serves = some (c, d') := by
    rw [is] at serves
    obtain ⟨⟨_, d'⟩, same, rfl⟩ := Option.map_eq_some_iff.mp serves.symm
    exact ⟨d', same⟩
  have not_mine {j : Nat} {x : Thread} {c : Nat} {d : List (List UInt8)} (other : j ≠ i) (at_j : s.threads[j]? = some x)
      (is : x.serves = some (c, d)) : u.streams c = s.streams c := others c fun same => by
    obtain ⟨⟨_, d'⟩, took, rfl⟩ := Option.map_eq_some_iff.mp same
    exact other (st.only j i x t _ d d' at_j at_i is took)
  refine ⟨fun j x c d at_j is => ?_, fun alive j x c d at_j is reads => ?_, fun j x at_j begins => ?_, fun c beyond => ?_,
    fun j x c d at_j is => ?_, fun j k x y c d d' at_j at_k hx hy => ?_⟩
  · rcases at_set at_j with ⟨rfl, rfl⟩ | ⟨other, at_j⟩
    · exact (mine c d is).1
    · show d = packets (u.streams c)
      rw [not_mine other at_j is]
      exact st.delivered j x c d at_j is
  · rcases at_set at_j with ⟨rfl, rfl⟩ | ⟨other, at_j⟩
    · exact (mine c d is).2 alive reads
    · obtain ⟨alive, same | none⟩ := left alive
      · show ((format Serializer.decode).scan (u.streams c)).2 = some u.mRecvBuffer.contents
        rw [not_mine other at_j is, same]
        exact st.left alive j x c d at_j is reads
      · rw [none j x other at_j] at reads
        cases reads
  · have quiet : ∃ x, s.threads[j]? = some x ∧ x.starting := by
      rcases at_set at_j with ⟨rfl, rfl⟩ | ⟨other, at_j⟩
      · exact ⟨t, at_i, starting begins⟩
      · exact ⟨x, at_j, begins⟩
    obtain ⟨x, at_j, begins⟩ := quiet
    show u.streams j = []
    rw [others j fun same => ?_]
    · exact st.silent j x at_j begins
    · obtain ⟨⟨_, d⟩, took, rfl⟩ := Option.map_eq_some_iff.mp same
      obtain ⟨y, at_j', done⟩ := st.started i t _ d at_i took
      cases at_j.symm.trans at_j'
      rw [begins] at done
      cases done
  · rw [List.length_set] at beyond
    show u.streams c = []
    rw [others c fun same => ?_]
    · exact st.unmade c beyond
    · obtain ⟨⟨_, d⟩, took, rfl⟩ := Option.map_eq_some_iff.mp same
      obtain ⟨y, at_c, -⟩ := st.started i t _ d at_i took
      exact Nat.not_le_of_lt (List.getElem?_eq_some_iff.mp at_c).1 beyond
  · have before : ∃ x, s.threads[c]? = some x ∧ x.starting = false := by
      rcases at_set at_j with ⟨rfl, rfl⟩ | ⟨other, at_j⟩
      · obtain ⟨d', same⟩ := mine_before is
        exact st.started _ t c d' at_i same
      · exact st.started j x c d at_j is
    obtain ⟨y, at_c, done⟩ := before
    by_cases here : c = i
    · subst here
      refine ⟨v, List.getElem?_set_self lt, Bool.eq_false_iff.mpr fun begins => ?_⟩
      cases at_c.symm.trans at_i
      rw [starting begins] at done
      cases done
    · exact ⟨y, by rw [← at_c]; exact List.getElem?_set_ne (Ne.symm here), done⟩
  · rcases at_set at_j with ⟨rfl, rfl⟩ | ⟨-, old⟩
    · rcases at_set at_k with ⟨rfl, -⟩ | ⟨-, old'⟩
      · rfl
      · obtain ⟨d'', took⟩ := mine_before hx
        exact st.only _ _ t y c d'' d' at_i old' took hy
    · rcases at_set at_k with ⟨rfl, rfl⟩ | ⟨-, old'⟩
      · obtain ⟨d'', took⟩ := mine_before hy
        exact st.only _ _ x t c d d'' old at_i hx took
      · exact st.only j k x y c d d' old old' hx hy

theorem Streams.append (st : Streams s)
    (mine : ∀ c d, t.serves = some (c, d) → (d = packets (s.streams c) ∧
        ((format Serializer.decode).scan (s.streams c)).2 = some s.mRecvBuffer.contents) ∧
      (∃ x, s.threads[c]? = some x ∧ x.starting = false) ∧
      ∀ (j : Nat) (x : Thread) d', s.threads[j]? = some x → x.serves ≠ some (c, d')) :
    Streams { s with threads := s.threads ++ [t] } := by
  have kept {c : Nat} (before : ∃ x, s.threads[c]? = some x ∧ x.starting = false) :
      ∃ x, (s.threads ++ [t])[c]? = some x ∧ x.starting = false := by
    obtain ⟨x, at_c, done⟩ := before
    exact ⟨x, by rw [List.getElem?_append_left (List.getElem?_eq_some_iff.mp at_c).1]; exact at_c, done⟩
  refine ⟨fun j x c d at_j is => ?_, fun alive j x c d at_j is reads => ?_, fun j x at_j begins => ?_, fun c beyond => ?_,
    fun j x c d at_j is => ?_, fun j k x y c d d' at_j at_k hx hy => ?_⟩
  · rcases at_append_one at_j with old | ⟨rfl, rfl⟩
    · exact st.delivered j x c d old is
    · exact (mine c d is).1.1
  · rcases at_append_one at_j with old | ⟨rfl, rfl⟩
    · exact st.left alive j x c d old is reads
    · exact (mine c d is).1.2
  · rcases at_append_one at_j with old | ⟨rfl, rfl⟩
    · exact st.silent j x old begins
    · exact st.unmade _ (Nat.le_refl _)
  · rw [List.length_append] at beyond
    exact st.unmade c (Nat.le_of_add_right_le beyond)
  · rcases at_append_one at_j with old | ⟨rfl, rfl⟩
    · exact kept (st.started j x c d old is)
    · exact kept (mine c d is).2.1
  · rcases at_append_one at_j with old | ⟨rfl, rfl⟩
    · rcases at_append_one at_k with old' | ⟨rfl, rfl⟩
      · exact st.only j k x y c d d' old old' hx hy
      · exact absurd hx ((mine c d' hy).2.2 j x d old)
    · rcases at_append_one at_k with old' | ⟨rfl, rfl⟩
      · exact absurd hy ((mine c d hx).2.2 k y d' old')
      · rfl

theorem Alone.set (alone : Alone s) (at_i : s.threads[i]? = some t) (calls : ∀ pc, v = .connect pc → v.over = false → ∃ pc, t = .connect pc ∧ t.over = false)
    (ends : t.over → v.over) (serves : ∀ c d, t.serves = some (c, d) → ∃ d', v.serves = some (c, d')) :
    Alone { u with threads := s.threads.set i v } := by
  intro k pc at_k running j x apart at_j
  have before : ∃ pc, s.threads[k]? = some (.connect pc) ∧ (Thread.connect pc).over = false := by
    rcases at_set at_k with ⟨rfl, is⟩ | ⟨-, old⟩
    · obtain ⟨pc', rfl, running⟩ := calls pc is.symm (is ▸ running)
      exact ⟨pc', at_i, running⟩
    · exact ⟨pc, old, running⟩
  obtain ⟨pc', old, running⟩ := before
  rcases at_set at_j with ⟨rfl, rfl⟩ | ⟨-, old'⟩
  · rcases alone k pc' old running _ t apart at_i with done | ⟨d, is⟩
    · exact .inl (ends done)
    · exact .inr (serves k d is)
  · exact alone k pc' old running j x apart old'

/-- What a step of `Connect` leaves alone, and what it starts. -/
theorem connect_step {pc pc' : Connect} {child : Option Thread} (h : connect s i pc answer = some (u, pc', child)) :
    (Thread.connect pc).over = false ∧ ((Thread.connect pc').starting → (Thread.connect pc).starting) ∧
      (u.streams = s.streams ∧ u.mRecvBuffer = s.mRecvBuffer ∧ u.died = s.died) ∧
      (child = none ∨ pc = .startThread ∧ answer = .success true ∧ pc' = .writeConnected ∧ child = some (.recvThread i .readSocket [])) := by
  cases pc
  all_goals
    cases answer
    all_goals first
      | cases h; done
      | (simp only [connect, Option.some.injEq, Prod.mk.injEq, Option.ite_none_right_eq_some] at h
         obtain ⟨-, rfl, rfl, rfl⟩ := h
         exact ⟨rfl, fun _ => rfl, ⟨rfl, rfl, rfl⟩, .inl rfl⟩)
      | (simp only [connect, Option.some.injEq, Prod.mk.injEq] at h
         obtain ⟨rfl, rfl, rfl⟩ := h
         refine ⟨rfl, fun begins => ?_, ⟨rfl, rfl, rfl⟩, ?_⟩
         · first | rfl | cases begins
         · first
             | exact .inl rfl
             | (rename_i ok
                cases ok with
                | false => exact .inl rfl
                | true => exact .inr ⟨rfl, rfl, rfl, rfl⟩))

/-- A thread that relies on `mSocket` would be another call's. -/
theorem Alone.unused (alone : Alone s) (inv : Serves s) (l : Label) : Unused s l := by
  unfold Unused
  split
  next i answer =>
    split
    next socket at_i =>
      intro t member
      obtain ⟨j, at_j⟩ := List.mem_iff_getElem?.mp member
      by_cases here : j = i
      · subst here
        cases at_i.symm.trans at_j
        rfl
      · rcases alone i _ at_i rfl j t here at_j with ends | ⟨d, serves⟩
        · unfold Thread.over at ends
          split at ends
          all_goals first | rfl | cases ends
        · cases t with
          | recvThread c pc d' =>
            cases serves
            cases pc with
            | returned => rfl
            | _ => exact absurd (inv.distinct i j _ _ i at_i at_j rfl rfl) (Ne.symm here)
          | _ => cases serves
    · trivial
  · trivial

theorem Streams.connect {pc pc' : Connect} {child : Option Thread} (st : Streams s) (clean : CleanRing s (.thread i answer))
    (at_i : s.threads[i]? = some (.connect pc)) (h : connect s i pc answer = some (u, pc', child)) :
    Streams { u with threads := s.threads.set i (.connect pc') ++ child.toList } := by
  obtain ⟨-, starting, ⟨streams, ring, died⟩, starts⟩ := connect_step h
  have moved : Streams { u with threads := s.threads.set i (.connect pc') } :=
    st.set at_i rfl starting (fun c _ => by rw [streams]) nofun fun alive => ⟨died ▸ alive, .inl ring⟩
  rcases starts with rfl | ⟨rfl, rfl, rfl, rfl⟩
  · rw [Option.toList_none, List.append_nil]
    exact moved
  · refine moved.append fun c d is => ?_
    cases is
    have silent : u.streams i = [] := by rw [streams]; exact st.silent i _ at_i rfl
    have empty : u.mRecvBuffer.contents = [] := by
      simp only [CleanRing, at_i] at clean
      have := s.mRecvBuffer.contents_length
      rw [ring]
      exact List.eq_nil_of_length_eq_zero (by omega)
    have lt := (List.getElem?_eq_some_iff.mp at_i).1
    refine ⟨?_, ⟨_, List.getElem?_set_self lt, rfl⟩, fun j x d' at_j same => ?_⟩
    · show [] = packets (u.streams i) ∧ ((format Serializer.decode).scan (u.streams i)).2 = some u.mRecvBuffer.contents
      rw [silent, empty]
      exact ⟨rfl, rfl⟩
    · rcases at_set at_j with ⟨rfl, rfl⟩ | ⟨-, old⟩
      · cases same
      · obtain ⟨y, at_i', done⟩ := st.started j x i d' old same
        cases at_i.symm.trans at_i'
        cases done

theorem Alone.connect {pc pc' : Connect} {child : Option Thread} (alone : Alone s)
    (at_i : s.threads[i]? = some (.connect pc)) (h : connect s i pc answer = some (u, pc', child)) :
    Alone { u with threads := s.threads.set i (.connect pc') ++ child.toList } := by
  obtain ⟨running, -, -, starts⟩ := connect_step h
  have moved : Alone { u with threads := s.threads.set i (.connect pc') } :=
    alone.set at_i (fun _ _ _ => ⟨pc, rfl, running⟩) (fun ends => by rw [running] at ends; cases ends) nofun
  have lt := (List.getElem?_eq_some_iff.mp at_i).1
  rcases starts with rfl | ⟨rfl, rfl, rfl, rfl⟩
  · rw [Option.toList_none, List.append_nil]
    exact moved
  · intro k pc at_k calls j x apart at_j
    rcases at_append_one at_k with old | ⟨rfl, is⟩
    · rcases at_append_one at_j with old' | ⟨rfl, rfl⟩
      · exact moved k pc old calls j x apart old'
      · by_cases here : k = i
        · subst here
          exact .inr ⟨[], rfl⟩
        · -- two calls of `Connect` at once
          rcases moved k pc old calls i _ (Ne.symm here) (List.getElem?_set_self lt) with ends | ⟨d, serves⟩
          · cases ends
          · cases serves
    · cases is

theorem Alone.keep {pc' : Recv} {d d' : List (List UInt8)} (alone : Alone s) (at_i : s.threads[i]? = some (.recvThread c pc d))
    (ends : (Thread.recvThread c pc d).over → (Thread.recvThread c pc' d').over) :
    Alone { u with threads := s.threads.set i (.recvThread c pc' d') } :=
  alone.set at_i nofun ends fun c' d'' is => ⟨d', by cases is; rfl⟩

theorem Streams.keep {pc pc' : Recv} {d : List (List UInt8)} (st : Streams s) (at_i : s.threads[i]? = some (.recvThread c pc d))
    (same : u.streams = s.streams ∧ u.mRecvBuffer = s.mRecvBuffer ∧ u.died = s.died)
    (reading : (Thread.recvThread c pc' d).reading → (Thread.recvThread c pc d).reading) :
    Streams { u with threads := s.threads.set i (.recvThread c pc' (d ++ [])) } := by
  obtain ⟨streams, ring, died⟩ := same
  refine st.set at_i rfl nofun (fun c _ => by rw [streams]) (fun c' d' is => ?_) fun alive => ⟨died ▸ alive, .inl ring⟩
  obtain ⟨rfl, rfl⟩ : c = c' ∧ d ++ [] = d' := by simpa [Thread.serves] using is
  rw [List.append_nil, streams, ring]
  exact ⟨st.delivered i _ c d at_i rfl, fun alive reads => st.left (died ▸ alive) i _ c d at_i rfl (reading reads)⟩

theorem Streams.receive {socket : Nat} {d : List (List UInt8)} {data : List UInt8} (st : Streams s) (inv : Serves s)
    (at_i : s.threads[i]? = some (.recvThread c (.recv socket) d)) (alive : s.died = false) (some_bytes : data ≠ [])
    (posted : (data.length : Int) ≤ s.mRecvBuffer.getDirectEnqueueSize) (fits : (data.length : Int) ≤ s.mRecvBuffer.getFreeSize) :
    let filled := s.mRecvBuffer.receive data
    let turn := packetLoop Serializer.decode (filled.getUseSize.toNat + 1) filled
    Streams { s with
      mRecvBuffer := turn.mRecvBuffer
      died := turn.died
      streams := fun c' => if c' = c then s.streams c' ++ data else s.streams c'
      threads := s.threads.set i (.recvThread c .readSocket (d ++ turn.packets)) } := by
  intro filled turn
  have filling : filled.contents = s.mRecvBuffer.contents ++ data :=
    s.mRecvBuffer.receive_contents (List.length_pos_iff.mpr some_bytes) posted fits
  have turns : filled.contents.length < filled.getUseSize.toNat + 1 := by
    have := filled.contents_length
    omega
  obtain ⟨loop, rest⟩ := packetLoop_scan Serializer.decode turns
  have before : ((format Serializer.decode).scan (s.streams c)).2 = some s.mRecvBuffer.contents :=
    st.left alive i _ c d at_i rfl rfl
  have whole := scan_append (Prod.ext rfl before) data
  rw [← filling] at whole
  refine st.set (u := { s with
      mRecvBuffer := turn.mRecvBuffer
      died := turn.died
      streams := fun c' => if c' = c then s.streams c' ++ data else s.streams c' }) at_i rfl nofun (fun c' other => ?_) (fun c' d' is => ?_)
    fun _ => ⟨alive, .inr fun j x apart at_j => ?_⟩
  · exact if_neg fun same => other (by rw [same]; rfl)
  · obtain ⟨rfl, rfl⟩ : c = c' ∧ d ++ turn.packets = d' := by simpa [Thread.serves] using is
    simp only [if_true]
    refine ⟨?_, fun survives _ => ?_⟩
    · rw [packets, whole, loop, st.delivered i _ c d at_i rfl]
      rfl
    · rw [whole]
      exact rest survives
  · -- two threads that rely on `mSocket`
    have two := add_le_total (w := Thread.relies) at_i at_j apart
    have : Thread.relies (.recvThread c (.recv socket) d) = 1 := rfl
    have := inv.one
    cases x with
    | recvThread c' pc d' =>
      cases pc with
      | readSocket | recv => simp only [Thread.relies] at two; omega
      | _ => rfl
    | _ => rfl

theorem step_recvThread {pc : Recv} {d : List (List UInt8)} (st : Streams s) (inv : Serves s) (alone : Alone s)
    (clean : CleanRing s (.thread i answer)) (alive : s.died = false) (at_i : s.threads[i]? = some (.recvThread c pc d))
    (h : recvThread s pc answer = some (u, pc', d')) :
    Streams { u with threads := s.threads.set i (.recvThread c pc' (d ++ d')) } ∧
      Alone { u with threads := s.threads.set i (.recvThread c pc' (d ++ d')) } := by
  cases pc with
  | recv socket =>
    cases answer with
    | bytes data =>
      simp only [NetClient.recvThread] at h
      split at h
      · cases h
        exact ⟨st.keep at_i ⟨rfl, rfl, rfl⟩ (fun reads => by cases reads), alone.keep at_i id⟩
      next some_bytes =>
        simp only [inv.own i _ c socket at_i rfl rfl] at h
        split at h
        next posted =>
          cases h
          have fits : (data.length : Int) ≤ s.mRecvBuffer.getFreeSize := by simpa only [CleanRing, at_i] using clean
          exact ⟨st.receive inv at_i alive some_bytes posted fits, alone.keep at_i id⟩
        next => cases h
    | _ => cases h
  | readSocket | backup | writeConnected | onDisconnect | closeSocket =>
    cases answer with
    | none =>
      cases h
      exact ⟨st.keep at_i ⟨rfl, rfl, rfl⟩ (by exact id), alone.keep at_i (by first | exact id | exact fun _ => rfl)⟩
    | _ => cases h
  | returned => cases h

theorem step_streams (st : Streams s) (inv : Serves s) (alone : Alone s) (turn : InTurn s l) (clean : CleanRing s l)
    (h : client.step s l = some u) : Streams u ∧ Alone u := by
  have h : step s l = some u := h
  cases l with
  | connect =>
    simp only [step] at h
    split at h
    · cases h
    · obtain rfl := Option.some.inj h
      refine ⟨st.append (fun _ _ is => by cases is), fun k pc at_k running j x apart at_j => ?_⟩
      rcases at_append_one at_k with old | ⟨rfl, -⟩
      · rw [turn _ (List.mem_of_getElem? old)] at running
        cases running
      · rcases at_append_one at_j with old | ⟨rfl, -⟩
        · exact .inl (turn x (List.mem_of_getElem? old))
        · exact absurd rfl apart
  | disconnect =>
    simp only [step] at h
    split at h
    · cases h
    · obtain rfl := Option.some.inj h
      refine ⟨st.append (fun _ _ is => by cases is), fun k pc at_k running j x apart at_j => ?_⟩
      rcases at_append_one at_k with old | ⟨-, is⟩
      · rcases at_append_one at_j with old' | ⟨-, rfl⟩
        · exact alone k pc old running j x apart old'
        · exact .inl rfl
      · cases is
  | thread i answer =>
    simp only [step] at h
    split at h
    · cases h
    next alive =>
      have alive : s.died = false := Bool.eq_false_iff.mpr alive
      cases at_i : s.threads[i]? with
      | none => simp [at_i] at h
      | some t =>
        cases t with
        | connect pc =>
          simp only [at_i] at h
          obtain ⟨⟨u, pc', child⟩, moved, rfl⟩ := Option.map_eq_some_iff.mp h
          exact ⟨st.connect clean at_i moved, alone.connect at_i moved⟩
        | disconnect pc =>
          simp only [at_i] at h
          obtain ⟨⟨u, pc'⟩, moved, rfl⟩ := Option.map_eq_some_iff.mp h
          have same : u.streams = s.streams ∧ u.mRecvBuffer = s.mRecvBuffer ∧ u.died = s.died := by
            cases pc
            all_goals
              cases answer
              all_goals
                first
                  | cases moved; done
                  | cases moved; exact ⟨rfl, rfl, rfl⟩
          obtain ⟨streams, ring, died⟩ := same
          exact ⟨st.set at_i rfl (fun starts => by cases starts) (fun c _ => by rw [streams]) (fun _ _ is => by cases is) fun alive => ⟨died ▸ alive, .inl ring⟩,
            alone.set at_i (fun _ is => by cases is) (fun _ => rfl) (fun _ _ is => by cases is)⟩
        | recvThread c pc d =>
          simp only [at_i] at h
          obtain ⟨⟨u, pc', d'⟩, moved, rfl⟩ := Option.map_eq_some_iff.mp h
          exact step_recvThread st inv alone clean alive at_i moved

theorem run_streams (run : Run client (fun s l => InTurn s l ∧ CleanRing s l) tr s) : Serves s ∧ Alone s ∧ Streams s := by
  refine run.invariant_state (I := fun s => Serves s ∧ Alone s ∧ Streams s) (fun s start => ?_) ?_
  · obtain ⟨mem, rfl⟩ := start
    have none (i : Nat) (t : Thread) : ([] : List Thread)[i]? ≠ some t := by simp
    exact ⟨.init none, fun i pc at_i => absurd at_i (none i _), fun i t _ _ at_i => absurd at_i (none i t),
      fun _ i t _ _ at_i => absurd at_i (none i t), fun i t at_i => absurd at_i (none i t), fun _ _ => rfl,
      fun i t _ _ at_i => absurd at_i (none i t), fun i _ t _ _ _ _ at_i => absurd at_i (none i t)⟩
  · rintro s l u ⟨inv, alone, st⟩ ⟨turn, clean⟩ h
    obtain ⟨st', alone'⟩ := step_streams st inv alone turn clean h
    exact ⟨inv.step (alone.unused inv l) h, alone', st'⟩

/-- Where each connection finds the ring empty, and no `recv` fills it, a recv thread delivers the packets
of the bytes that came in on its own connection, and nothing else. -/
theorem packets_of_own_stream (run : Run client (fun s l => InTurn s l ∧ CleanRing s l) tr s) :
    ∀ c pc d, .recvThread c pc d ∈ s.threads → d = packets (s.streams c) := by
  intro c pc d member
  obtain ⟨i, at_i⟩ := List.mem_iff_getElem?.mp member
  exact (run_streams run).2.2.delivered i _ c d at_i rfl

def fiveFrame : List UInt8 := [0x77, 1, 0, 0, 0x37, 0x68]

example : packets fiveFrame = [[5]] := by decide

/-- Two connections, each with a packet; the frame of the second comes in two pieces. -/
theorem clean_reconnect_delivers : ∃ (tr : List (Client × Label)) (s : Client), tr.map Prod.snd =
      [connects 0 8, moves 1 [.none, .bytes fiveFrame, .none, .bytes [], .none, .none, .none], connects 2 12,
        moves 3 [.none, .bytes [0x77, 1, 0], .none, .bytes [0, 0x37, 0x68]]].flatten ∧
    .recvThread 2 .readSocket [[5]] ∈ s.threads ∧ [[5]] = packets (s.streams 2) := by
  have along : Along client (fun s l => InTurn s l ∧ CleanRing s l) newClient [connects 0 8,
      moves 1 [.none, .bytes fiveFrame, .none, .bytes [], .none, .none, .none], connects 2 12,
      moves 3 [.none, .bytes [0x77, 1, 0], .none, .bytes [0, 0x37, 0x68]]].flatten := by decide +kernel
  obtain ⟨s, reached, run⟩ := Run.along (.init newClient_init) along
  have facts : (exec client newClient [connects 0 8,
      moves 1 [.none, .bytes fiveFrame, .none, .bytes [], .none, .none, .none], connects 2 12,
      moves 3 [.none, .bytes [0x77, 1, 0], .none, .bytes [0, 0x37, 0x68]]].flatten).map (fun s => s.threads[3]?) =
        some (some (.recvThread 2 .readSocket [[5]])) := by decide +kernel
  rw [reached] at facts
  have member := List.mem_of_getElem? (Option.some.inj facts)
  exact ⟨_, s, trace_labels reached, member, packets_of_own_stream run 2 .readSocket [[5]] member⟩

/-- A connection that breaks off after a header: the next one's first frame is read as its payload. -/
theorem broken_frame_shifts_next_stream : ∃ tr s, Run client InTurn tr s ∧
    ∃ c pc d, .recvThread c pc d ∈ s.threads ∧ d ≠ packets (s.streams c) := by
  have along : Along client InTurn newClient [connects 0 8,
      moves 1 [.none, .bytes [0x77, 1, 0, 0, 0x37], .none, .bytes [], .none, .none, .none], connects 2 12,
      moves 3 [.none, .bytes fiveFrame]].flatten := by decide +kernel
  obtain ⟨s, reached, run⟩ := Run.along (.init newClient_init) along
  have facts : (exec client newClient [connects 0 8,
      moves 1 [.none, .bytes [0x77, 1, 0, 0, 0x37], .none, .bytes [], .none, .none, .none], connects 2 12,
      moves 3 [.none, .bytes fiveFrame]].flatten).map (fun s => (s.threads[3]?, s.streams 2)) =
        some (some (.recvThread 2 .readSocket []), fiveFrame) := by decide +kernel
  rw [reached] at facts
  simp only [Option.map_some, Option.some.injEq, Prod.mk.injEq] at facts
  refine ⟨_, s, run, 2, .readSocket, [], List.mem_of_getElem? facts.1, ?_⟩
  rw [facts.2]
  decide

end WanNet.NetClient
