import WanNet.NetClient.Streams
import WanNet.Serializer.Wire

/-!
A client whose server sends it the frames of packets: it lives, and gets their payloads in order.
-/

namespace WanNet.NetClient
open Transition Threads Framing Serializer

variable {s u : Client} {l : Label} {i c : Nat} {tail bytes data payload : List UInt8} {rand : UInt8} {packets : List (List UInt8)}
  {rb : RingBuffer UInt8} {sends : List (UInt8 × List UInt8)}

/-! ### Frames in a stream -/

theorem verdict_nil : verdict Serializer.decode [] = .wait := rfl

/-- The client takes the frames of packets for what they are. -/
theorem wire_writes (fits : payload.length ≤ defaultSize) (rand : UInt8) :
    (format Serializer.decode).Writes (wire rand payload) payload := by
  have length := ofNat_length fits
  have size := wire_length rand payload
  constructor
  · intro more
    obtain ⟨checkSum, read⟩ := read_wire rand payload more
    show verdict Serializer.decode (wire rand payload ++ more) = .frame payload more
    simp only [verdict, read, length]
    rw [if_neg (not_not_intro rfl), if_neg (by rw [List.length_append]; omega), if_neg (Nat.not_lt_of_le fits), ← size,
      List.take_left, List.drop_left, wire_decodes fits]
  · intro part begins apart
    show verdict Serializer.decode part = .wait
    obtain ⟨rest, whole⟩ := begins
    cases found : NetworkHeader.read part with
    | none => simp only [verdict, found]
    | some header =>
      obtain ⟨checkSum, read⟩ := read_wire rand payload []
      have longer : NetworkHeader.read (part ++ rest) = some header := read_append found
      rw [whole, ← List.append_nil (wire rand payload), read, Option.some.injEq] at longer
      subst longer
      have short : part.length < NetworkHeader.size + payload.length := by
        rw [← size, ← whole, List.length_append]
        have : rest ≠ [] := by
          rintro rfl
          rw [List.append_nil] at whole
          exact apart whole
        have := List.length_pos_iff.mpr this
        omega
      simp only [verdict, found, length]
      rw [if_neg (not_not_intro rfl), if_pos short]

/-- The frames of packets sent one after the other, each with the key that `rand` gave it. -/
def framesOf (sends : List (UInt8 × List UInt8)) : List (List UInt8 × List UInt8) :=
  sends.map fun x => (wire x.1 x.2, x.2)

/-- The bytes are the beginning of the frames of some packets. -/
def Honest (bytes : List UInt8) (sends : List (UInt8 × List UInt8)) : Prop :=
  (∀ x ∈ sends, x.2.length ≤ defaultSize) ∧ bytes <+: (framesOf sends).flatMap Prod.fst

theorem Honest.writes (honest : Honest bytes sends) : ∀ f ∈ framesOf sends, (format Serializer.decode).Writes f.1 f.2 := by
  intro f member
  obtain ⟨x, there, rfl⟩ := List.mem_map.mp member
  exact wire_writes (honest.1 x there) x.1

theorem Honest.begins (honest : Honest (bytes ++ data) sends) : Honest bytes sends :=
  ⟨honest.1, (List.prefix_append bytes data).trans honest.2⟩

/-- What the client makes of such bytes: the payloads of the frames that are there, and less than a frame left. -/
theorem Honest.scan (honest : Honest bytes sends) :
    ∃ sent later tail, Cut (framesOf sends) bytes sent later tail ∧
      (format Serializer.decode).scan bytes = (sent.map Prod.snd, some tail) ∧ tail.length < NetworkHeader.size + defaultSize := by
  obtain ⟨sent, later, tail, is⟩ := cut (framesOf sends) honest.2
  refine ⟨sent, later, tail, is, is.scan honest.writes verdict_nil, ?_⟩
  cases later with
  | nil =>
    rw [is.ended rfl]
    decide
  | cons f later =>
    obtain ⟨inside, apart⟩ := is.part f rfl
    have member : f ∈ framesOf sends := by
      rw [is.frames]
      exact List.mem_append_right _ List.mem_cons_self
    obtain ⟨x, there, rfl⟩ := List.mem_map.mp member
    have fits := honest.1 x there
    have length := wire_length x.1 x.2
    have shorter : tail.length < (wire x.1 x.2).length := by
      apply Nat.lt_of_le_of_ne inside.length_le
      intro same
      exact apart (inside.eq_of_length same)
    omega

/-! ### The assertions of the packet loop -/

theorem dequeue_mCapacity {rest : RingBuffer UInt8} {n : Nat} (taken : rb.dequeue n = some (data, rest)) :
    rest.mCapacity = rb.mCapacity := by
  unfold RingBuffer.dequeue at taken
  split at taken
  · cases taken
  · cases taken
    rfl

/-- The loop passes its assertions on bytes that begin with good frames and leave room in the ring behind them. -/
theorem packetLoop_lives {turns : Nat} (enough : rb.contents.length < turns)
    (scanned : (format Serializer.decode).scan rb.contents = (packets, some tail)) (room : (tail.length : Int) + 1 < rb.mCapacity) :
    (packetLoop Serializer.decode turns rb).died = false := by
  induction turns generalizing rb packets with
  | zero => omega
  | succ turns ih =>
    have length := rb.contents_length
    unfold packetLoop
    by_cases short : rb.getUseSize < NetworkHeader.size
    · rw [if_pos short]
      rfl
    have peeked : rb.peek NetworkHeader.size = some (rb.contents.take NetworkHeader.size) := by
      rw [RingBuffer.peek, if_neg short, rb.copyOut_eq (by omega)]
    rw [if_neg short, peeked, Option.bind_some, read_take]
    have next : (format Serializer.decode).next rb.contents = verdict Serializer.decode rb.contents := rfl
    unfold verdict at next
    cases read : NetworkHeader.read rb.contents with
    | none =>
      have := read_none.mp read
      omega
    | some header =>
      simp only [read] at next ⊢
      by_cases code : header.Code ≠ NetworkHeader.code
      · rw [if_pos code] at next
        rw [scan_stop next] at scanned
        cases scanned
      rw [if_neg code] at next ⊢
      by_cases part : rb.getUseSize < NetworkHeader.size + header.Length.toNat
      · rw [if_pos (by omega)] at next
        rw [scan_wait next] at scanned
        cases scanned
        rw [if_pos part, decide_eq_true (by rw [RingBuffer.getFreeSize]; omega)]
        rfl
      rw [if_neg (by omega)] at next
      rw [if_neg part]
      cases taken : rb.dequeue (NetworkHeader.size + header.Length.toNat) with
      | none =>
        have := (rb.dequeue_isSome (n := NetworkHeader.size + header.Length.toNat)).mpr (by omega)
        simp [taken] at this
      | some result =>
        obtain ⟨frame, rest⟩ := result
        have same := dequeue_mCapacity taken
        obtain ⟨rfl, left⟩ := RingBuffer.dequeue_contents taken
        simp only
        by_cases overrun : defaultSize < header.Length.toNat
        · rw [if_pos overrun] at next
          rw [scan_stop next] at scanned
          cases scanned
        rw [if_neg overrun] at next ⊢
        cases decoded : Serializer.decode (rb.contents.take (NetworkHeader.size + header.Length.toNat)) with
        | none =>
          rw [decoded] at next
          rw [scan_stop next] at scanned
          cases scanned
        | some payload =>
          simp only [decoded] at next
          rw [scan_frame next, ← left] at scanned
          have later : ((format Serializer.decode).scan rest.contents).2 = some tail := congrArg Prod.snd scanned
          have fewer : rest.contents.length < turns := by
            have := congrArg List.length left
            rw [List.length_drop, NetworkHeader.size] at this
            simp only [NetworkHeader.size] at *
            omega
          exact ih fewer (Prod.ext rfl later) (by rw [same]; exact room)

theorem packetLoop_mCapacity (turns : Nat) (rb : RingBuffer UInt8) :
    (packetLoop Serializer.decode turns rb).mRecvBuffer.mCapacity = rb.mCapacity := by
  induction turns generalizing rb with
  | zero => rfl
  | succ turns ih =>
    unfold packetLoop
    split
    · rfl
    split
    · rfl
    split
    · rfl
    split
    · rfl
    split
    · rfl
    next frame rest taken =>
      have same := dequeue_mCapacity taken
      split
      · exact same
      split
      · exact same
      · exact (ih rest).trans same

/-! ### Runs -/

/-- What holds of a client while the bytes on every connection are those of packets' frames. -/
structure Lives (s : Client) : Prop where
  alive : (∀ c, ∃ sends, Honest (s.streams c) sends) → s.died = false
  capacity : s.mRecvBuffer.mCapacity = RingBuffer.defaultSize

theorem Lives.same (lives : Lives s) (streams : u.streams = s.streams) (ring : u.mRecvBuffer = s.mRecvBuffer)
    (died : u.died = s.died) : Lives u where
  alive := by
    rw [streams, died]
    exact lives.alive
  capacity := by
    rw [ring]
    exact lives.capacity

theorem disconnect_step {pc pc' : Disconnect} {answer : Answer} (h : disconnect s pc answer = some (u, pc')) :
    u.streams = s.streams ∧ u.mRecvBuffer = s.mRecvBuffer ∧ u.died = s.died := by
  cases pc
  all_goals
    cases answer
    all_goals
      first
        | cases h; done
        | cases h; exact ⟨rfl, rfl, rfl⟩

/-- Only a `recv` that brings bytes touches the ring. -/
theorem recvThread_step {pc pc' : Recv} {answer : Answer} {d : List (List UInt8)} (h : recvThread s pc answer = some (u, pc', d)) :
    (u.streams = s.streams ∧ u.mRecvBuffer = s.mRecvBuffer ∧ u.died = s.died) ∨
      ∃ socket data, pc = .recv socket ∧ answer = .bytes data ∧ data ≠ [] := by
  cases pc
  case recv socket =>
    cases answer
    case bytes data =>
      by_cases ended : data = []
      · simp only [recvThread, if_pos ended] at h
        cases h
        exact .inl ⟨rfl, rfl, rfl⟩
      · exact .inr ⟨socket, data, rfl, rfl, ended⟩
    all_goals cases h
  all_goals
    cases answer
    all_goals
      first
        | cases h; done
        | cases h; exact .inl ⟨rfl, rfl, rfl⟩

theorem Lives.receive {socket : Nat} {d : List (List UInt8)} {threads : List Thread} (lives : Lives s) (st : Streams s)
    (at_i : s.threads[i]? = some (.recvThread c (.recv socket) d)) (alive : s.died = false) (some_bytes : data ≠ [])
    (posted : (data.length : Int) ≤ s.mRecvBuffer.getDirectEnqueueSize) (fits : (data.length : Int) ≤ s.mRecvBuffer.getFreeSize) :
    let filled := s.mRecvBuffer.receive data
    let turn := packetLoop Serializer.decode (filled.getUseSize.toNat + 1) filled
    Lives { s with
      mRecvBuffer := turn.mRecvBuffer
      died := turn.died
      streams := fun c' => if c' = c then s.streams c' ++ data else s.streams c'
      threads := threads } := by
  intro filled turn
  have filling : filled.contents = s.mRecvBuffer.contents ++ data :=
    s.mRecvBuffer.receive_contents (List.length_pos_iff.mpr some_bytes) posted fits
  have capacity : filled.mCapacity = RingBuffer.defaultSize := by
    rw [← lives.capacity]
    show (s.mRecvBuffer.receive data).mCapacity = _
    rw [s.mRecvBuffer.receive_eq posted]
    rfl
  constructor
  · intro honest
    obtain ⟨sends, here⟩ := honest c
    simp only [if_true] at here
    have before : ((format Serializer.decode).scan (s.streams c)).2 = some s.mRecvBuffer.contents :=
      st.left alive i _ c d at_i rfl rfl
    have whole := scan_append (Prod.ext rfl before) data
    obtain ⟨sent, later, tail, -, scanned, short⟩ := here.scan
    rw [← filling, scanned] at whole
    have left : ((format Serializer.decode).scan filled.contents).2 = some tail := (congrArg Prod.snd whole).symm
    have turns : filled.contents.length < filled.getUseSize.toNat + 1 := by
      have := filled.contents_length
      omega
    apply packetLoop_lives turns (Prod.ext rfl left)
    rw [capacity]
    simp only [RingBuffer.defaultSize, NetworkHeader.size, defaultSize] at short ⊢
    omega
  · show (packetLoop Serializer.decode _ filled).mRecvBuffer.mCapacity = _
    rw [packetLoop_mCapacity, capacity]

theorem Lives.step (lives : Lives s) (st : Streams s) (inv : Serves s) (clean : CleanRing s l)
    (h : client.step s l = some u) : Lives u := by
  have h : NetClient.step s l = some u := h
  cases l with
  | connect | disconnect =>
    simp only [NetClient.step] at h
    split at h
    · cases h
    · cases h
      exact lives.same rfl rfl rfl
  | thread i answer =>
    simp only [NetClient.step] at h
    split at h
    · cases h
    next alive =>
      have alive : s.died = false := Bool.eq_false_iff.mpr alive
      cases at_i : s.threads[i]? with
      | none => simp [at_i] at h
      | some t =>
        cases t with
        | connect pc =>
          simp only [at_i] at h
          obtain ⟨⟨u, pc', child⟩, moved, rfl⟩ := Option.map_eq_some_iff.mp h
          obtain ⟨-, -, ⟨streams, ring, died⟩, -⟩ := connect_step moved
          exact lives.same streams ring died
        | disconnect pc =>
          simp only [at_i] at h
          obtain ⟨⟨u, pc'⟩, moved, rfl⟩ := Option.map_eq_some_iff.mp h
          obtain ⟨streams, ring, died⟩ := disconnect_step moved
          exact lives.same streams ring died
        | recvThread c pc d =>
          simp only [at_i] at h
          obtain ⟨⟨u, pc', d'⟩, moved, rfl⟩ := Option.map_eq_some_iff.mp h
          rcases recvThread_step moved with ⟨streams, ring, died⟩ | ⟨socket, data, rfl, rfl, some_bytes⟩
          · exact lives.same streams ring died
          · simp only [NetClient.recvThread, if_neg some_bytes, inv.own i _ c socket at_i rfl rfl] at moved
            split at moved
            next posted =>
              cases moved
              have fits : (data.length : Int) ≤ s.mRecvBuffer.getFreeSize := by simpa only [CleanRing, at_i] using clean
              exact lives.receive st at_i alive some_bytes posted fits
            · cases moved

theorem run_lives (run : Run client (fun s l => InTurn s l ∧ CleanRing s l) tr s) : Lives s := by
  refine run.invariant (I := fun _ s => Lives s) (fun s start => ?_) ?_
  · obtain ⟨mem, rfl⟩ := start
    exact ⟨fun _ => rfl, rfl⟩
  · intro tr s l u before lives ⟨_, clean⟩ h
    obtain ⟨inv, -, st⟩ := run_streams before
    exact lives.step st inv clean h

/-- A server that sends packets prepared by `prepareSend` does not end the client, and the recv thread gives
`OnReceive` the payloads, in the order in which they were sent, of the packets that have come in whole. -/
theorem sent_packets_arrive (run : Run client (fun s l => InTurn s l ∧ CleanRing s l) tr s)
    (honest : ∀ c, ∃ sends, Honest (s.streams c) sends) :
    s.died = false ∧ ∀ c pc d sends, .recvThread c pc d ∈ s.threads → Honest (s.streams c) sends →
      ∃ sent later tail, Cut (framesOf sends) (s.streams c) sent later tail ∧ d = sent.map Prod.snd := by
  refine ⟨(run_lives run).alive honest, ?_⟩
  intro c pc d sends member here
  obtain ⟨sent, later, tail, is, scanned, -⟩ := here.scan
  refine ⟨sent, later, tail, is, ?_⟩
  rw [packets_of_own_stream run c pc d member, NetClient.packets, scanned]

/-- A packet has come in, and the first bytes of the next. -/
theorem one_packet_arrives : ∃ s : Client, s.streams 0 = wire 0 [5] ++ [0x77, 1] ∧ s.died = false ∧
    ∃ sent later tail, Cut (framesOf [(0, [5]), (9, [7])]) (s.streams 0) sent later tail ∧ [[5]] = sent.map Prod.snd := by
  have along : Along client (fun s l => InTurn s l ∧ CleanRing s l) newClient
      (connects 0 8 ++ moves 1 [.none, .bytes (fiveFrame ++ [0x77, 1])]) := by decide +kernel
  obtain ⟨s, reached, run⟩ := Run.along (.init newClient_init) along
  have facts : (exec client newClient (connects 0 8 ++ moves 1 [.none, .bytes (fiveFrame ++ [0x77, 1])])).map
      (fun s => (s.threads[1]?, s.threads.length, s.streams 0, s.streams 1)) =
        some (some (.recvThread 0 .readSocket [[5]]), 2, fiveFrame ++ [0x77, 1], []) := by decide +kernel
  rw [reached] at facts
  simp only [Option.map_some, Option.some.injEq, Prod.mk.injEq] at facts
  obtain ⟨thread, length, first, second⟩ := facts
  have came : Honest (s.streams 0) [(0, [5]), (9, [7])] := by
    rw [first]
    exact ⟨by decide, by decide⟩
  have honest : ∀ c, ∃ sends, Honest (s.streams c) sends := by
    intro c
    by_cases here : c = 0
    · subst here
      exact ⟨_, came⟩
    · have none : s.streams c = [] := by
        by_cases next : c = 1
        · rw [next, second]
        · exact (run_streams run).2.2.unmade c (by omega)
      rw [none]
      exact ⟨[], by simp, List.nil_prefix⟩
  obtain ⟨alive, arrived⟩ := sent_packets_arrive run honest
  refine ⟨s, by rw [first]; decide, alive, ?_⟩
  exact arrived 0 .readSocket [[5]] [(0, [5]), (9, [7])] (List.mem_of_getElem? thread) came

end WanNet.NetClient
