import Mathlib.Data.List.Nodup
import WanNet.Interlocked
import WanNet.Lib.Threads
import WanNet.Lib.Transition

/-!
`Logger::LogMonitorAsync`, called by any number of threads, and the one `asyncLogThread` that writes
the logs. In `Enqueue` the element is linked and `mCount` is raised in two steps; `SetEvent`, the wait
on the auto-reset event and each `TryDequeue` are one step.
-/

namespace WanNet.Logger
open Transition Threads

inductive Call where
  | link | count | setEvent | returned
  deriving DecidableEq

/-- What `asyncLogThread` does next. A log is the number of the call that made it. -/
inductive Writer where
  | waitForEvent | tryDequeue | print (log : Nat) | writeToFile (log : Nat) | delete (log : Nat)
  deriving DecidableEq

structure Logger where
  mAsyncLogQueue : List Nat := []
  /-- 32 bits -/
  mCount : Nat := 0
  mAsyncLogEvent : Bool := false
  calls : List Call := []
  writer : Writer := .waitForEvent
  /-- bookkeeping: the logs in the order in which they were linked, and what was printed and written -/
  enqueued : List Nat := []
  printed : List Nat := []
  written : List Nat := []

inductive Label where
  | call
  | thread (i : Nat)
  | writer
  deriving DecidableEq

def logMonitorAsync (s : Logger) (i : Nat) : Call → Option (Logger × Call)
  | .link => some ({ s with mAsyncLogQueue := s.mAsyncLogQueue ++ [i], enqueued := s.enqueued ++ [i] }, .count)
  | .count => some ({ s with mCount := inc32 s.mCount }, .setEvent)
  | .setEvent => some ({ s with mAsyncLogEvent := true }, .returned)
  | .returned => none

def asyncLogThread (s : Logger) : Option Logger :=
  match s.writer with
  | .waitForEvent => if s.mAsyncLogEvent then some { s with mAsyncLogEvent := false, writer := .tryDequeue } else none
  | .tryDequeue =>
    if s.mCount = 0 then some { s with writer := .waitForEvent }
    else
      match s.mAsyncLogQueue with
      -- `TryDequeue` goes on until it finds the element that was counted
      | [] => none
      | log :: rest => some { s with mAsyncLogQueue := rest, mCount := dec32 s.mCount, writer := .print log }
  | .print log => some { s with printed := s.printed ++ [log], writer := .writeToFile log }
  | .writeToFile log => some { s with written := s.written ++ [log], writer := .delete log }
  | .delete _ => some { s with writer := .tryDequeue }

def step (s : Logger) : Label → Option Logger
  | .call => some { s with calls := s.calls ++ [.link] }
  | .thread i =>
    match s.calls[i]? with
    | none => none
    | some pc => (logMonitorAsync s i pc).map fun r => { r.1 with calls := s.calls.set i r.2 }
  | .writer => asyncLogThread s

def logger : System Logger Label where
  init s := s = {}
  step := step

def Counts (s : Logger) : Label → Prop
  | .thread i => s.calls[i]? = some .count → s.mCount + 1 < 2 ^ 32
  | _ => True

instance (s : Logger) (l : Label) : Decidable (Counts s l) :=
  match l with
  | .thread i => inferInstanceAs (Decidable (s.calls[i]? = some .count → _))
  | .call | .writer => .isTrue trivial

/-- No call in progress, and the writer blocked in its wait. -/
def Asleep (s : Logger) : Prop :=
  (∀ pc ∈ s.calls, pc = .returned) ∧ s.mAsyncLogEvent = false ∧ s.writer = .waitForEvent

variable {s u : Logger} {i : Nat} {pc : Call} {l : Label} {tr : List (Logger × Label)}

/-! ### Steps -/

/-- 1 for a call between its link and its count, and for one between its count and its `SetEvent`. -/
def Call.uncounted (pc : Call) : Nat := if pc = .count then 1 else 0

def Call.unsignalled (pc : Call) : Nat := if pc = .setEvent then 1 else 0

/-- The log that the writer has taken and not printed, and the one it has not written. -/
def Writer.unprinted : Writer → List Nat
  | .print log => [log]
  | _ => []

def Writer.unwritten : Writer → List Nat
  | .print log | .writeToFile log => [log]
  | _ => []

structure Kept (s : Logger) : Prop where
  printed : s.printed ++ s.writer.unprinted ++ s.mAsyncLogQueue = s.enqueued
  written : s.written ++ s.writer.unwritten ++ s.mAsyncLogQueue = s.enqueued
  once : s.enqueued.Nodup
  linked : ∀ i, i ∈ s.enqueued ↔ ∃ pc, s.calls[i]? = some pc ∧ pc ≠ .link
  counted : s.mAsyncLogQueue.length = s.mCount + total Call.uncounted s.calls
  word : s.mCount < 2 ^ 32
  awake : 0 < s.mCount → s.mAsyncLogEvent = true ∨ 0 < total Call.unsignalled s.calls ∨ s.writer ≠ .waitForEvent

theorem step_thread (h : step s (.thread i) = some u) :
    ∃ pc w pc', s.calls[i]? = some pc ∧ logMonitorAsync s i pc = some (w, pc') ∧ u = { w with calls := s.calls.set i pc' } := by
  simp only [step] at h
  split at h
  · cases h
  · rename_i pc at_i
    obtain ⟨⟨w, pc'⟩, moved, rfl⟩ := Option.map_eq_some_iff.mp h
    exact ⟨pc, w, pc', at_i, moved, rfl⟩

theorem linked_set {pc' : Call} {logs logs' : List Nat} (linked : ∀ j, j ∈ logs ↔ ∃ pc, s.calls[j]? = some pc ∧ pc ≠ .link)
    (at_i : s.calls[i]? = some pc) (past : pc' ≠ .link) (more : ∀ j, j ∈ logs' ↔ j ∈ logs ∨ j = i) :
    ∀ j, j ∈ logs' ↔ ∃ pc, (s.calls.set i pc')[j]? = some pc ∧ pc ≠ .link := by
  intro j
  rw [more, linked]
  have lt := (List.getElem?_eq_some_iff.mp at_i).1
  by_cases here : j = i
  · subst here
    rw [List.getElem?_set_self lt]
    exact ⟨fun _ => ⟨pc', rfl, past⟩, fun _ => .inr rfl⟩
  · rw [List.getElem?_set_ne (Ne.symm here)]
    exact ⟨fun old => old.resolve_right here, .inl⟩

theorem Kept.call (kept : Kept s) : Kept { s with calls := s.calls ++ [.link] } := by
  refine ⟨kept.printed, kept.written, kept.once, fun j => ?_, ?_, kept.word, fun some_counted => ?_⟩
  · rw [kept.linked]
    constructor
    · rintro ⟨pc, at_j, past⟩
      exact ⟨pc, by rw [List.getElem?_append_left (List.getElem?_eq_some_iff.mp at_j).1]; exact at_j, past⟩
    · rintro ⟨pc, at_j, past⟩
      rcases at_append_one at_j with old | ⟨-, is⟩
      · exact ⟨pc, old, past⟩
      · exact absurd is past
  · rw [total_append_one]
    exact kept.counted
  · rw [total_append_one]
    exact kept.awake some_counted

theorem Kept.thread {pc' : Call} {w : Logger} (kept : Kept s) (counts : Counts s (.thread i)) (at_i : s.calls[i]? = some pc)
    (moved : logMonitorAsync s i pc = some (w, pc')) : Kept { w with calls := s.calls.set i pc' } := by
  have uncounted := total_set (w := Call.uncounted) (b := pc') at_i
  have unsignalled := total_set (w := Call.unsignalled) (b := pc') at_i
  have counted := kept.counted
  have word := kept.word
  cases pc with
  | link =>
    cases moved
    simp only [Call.uncounted, Call.unsignalled, if_true, reduceCtorEq, if_false] at uncounted unsignalled
    have new : i ∉ s.enqueued := by
      rw [kept.linked]
      rintro ⟨pc, at_i', past⟩
      rw [at_i] at at_i'
      cases at_i'
      exact past rfl
    refine ⟨?_, ?_, ?_, ?_, ?_, word, fun some_counted => ?_⟩
    · rw [← kept.printed]
      exact (List.append_assoc _ _ _).symm
    · rw [← kept.written]
      exact (List.append_assoc _ _ _).symm
    · refine List.nodup_append.mpr ⟨kept.once, by simp, ?_⟩
      rintro x old y new' rfl
      rw [List.mem_singleton.mp new'] at old
      exact new old
    · exact linked_set kept.linked at_i (by simp) fun j => by simp
    · rw [List.length_append, List.length_singleton]
      change s.mAsyncLogQueue.length + 1 = s.mCount + total Call.uncounted (s.calls.set i .count)
      omega
    · change s.mAsyncLogEvent = true ∨ 0 < total Call.unsignalled (s.calls.set i .count) ∨ _
      rcases kept.awake some_counted with event | later | active
      · exact .inl event
      · exact .inr (.inl (by omega))
      · exact .inr (.inr active)
  | count =>
    cases moved
    simp only [Call.uncounted, Call.unsignalled, if_true, reduceCtorEq, if_false] at uncounted unsignalled
    have room : s.mCount + 1 < 2 ^ 32 := counts at_i
    have raised := inc32_eq room
    refine ⟨kept.printed, kept.written, kept.once, ?_, ?_, ?_, fun _ => ?_⟩
    · refine linked_set kept.linked at_i (by simp) fun j => ⟨.inl, ?_⟩
      rintro (old | rfl)
      · exact old
      · exact (kept.linked j).mpr ⟨_, at_i, by simp⟩
    · change s.mAsyncLogQueue.length = inc32 s.mCount + total Call.uncounted (s.calls.set i .setEvent)
      omega
    · change inc32 s.mCount < 2 ^ 32
      omega
    · change _ ∨ 0 < total Call.unsignalled (s.calls.set i .setEvent) ∨ _
      exact .inr (.inl (by omega))
  | setEvent =>
    cases moved
    simp only [Call.uncounted, Call.unsignalled, if_true, reduceCtorEq, if_false] at uncounted unsignalled
    refine ⟨kept.printed, kept.written, kept.once, ?_, ?_, word, fun _ => .inl rfl⟩
    · refine linked_set kept.linked at_i (by simp) fun j => ⟨.inl, ?_⟩
      rintro (old | rfl)
      · exact old
      · exact (kept.linked j).mpr ⟨_, at_i, by simp⟩
    · change s.mAsyncLogQueue.length = s.mCount + total Call.uncounted (s.calls.set i .returned)
      omega
  | returned => cases moved

theorem Kept.writer (kept : Kept s) (h : asyncLogThread s = some u) : Kept u := by
  obtain ⟨printed, written, once, linked, counted, word, awake⟩ := kept
  unfold asyncLogThread at h
  cases at_ : s.writer with
  | waitForEvent =>
    simp only [at_] at h
    split at h
    · cases h
      rw [at_] at printed written
      exact ⟨printed, written, once, linked, counted, word, fun _ => .inr (.inr (by simp))⟩
    · cases h
  | tryDequeue =>
    simp only [at_] at h
    rw [at_] at printed written
    split at h
    · rename_i none
      cases h
      exact ⟨printed, written, once, linked, counted, word, fun some_counted => absurd none (Nat.ne_of_gt some_counted)⟩
    · rename_i some_counted
      split at h
      · cases h
      · rename_i log rest queue
        cases h
        rw [queue] at printed written counted
        have lowered := dec32_eq (Nat.pos_of_ne_zero some_counted) word
        rw [List.length_cons] at counted
        refine ⟨?_, ?_, once, linked, ?_, ?_, fun _ => .inr (.inr (by simp))⟩
        · rw [← printed]
          simp [Writer.unprinted]
        · rw [← written]
          simp [Writer.unwritten]
        · change rest.length = dec32 s.mCount + total Call.uncounted s.calls
          omega
        · change dec32 s.mCount < 2 ^ 32
          omega
  | print log =>
    simp only [at_] at h
    cases h
    rw [at_] at printed written
    refine ⟨?_, written, once, linked, counted, word, fun _ => .inr (.inr (by simp))⟩
    rw [← printed]
    simp [Writer.unprinted]
  | writeToFile log =>
    simp only [at_] at h
    cases h
    rw [at_] at printed written
    refine ⟨printed, ?_, once, linked, counted, word, fun _ => .inr (.inr (by simp))⟩
    rw [← written]
    simp [Writer.unwritten]
  | delete log =>
    simp only [at_] at h
    cases h
    rw [at_] at printed written
    exact ⟨printed, written, once, linked, counted, word, fun _ => .inr (.inr (by simp))⟩

theorem run_kept (run : Run logger Counts tr s) : Kept s := by
  refine run.invariant_state (I := Kept) (fun s start => ?_) fun s l u kept counts h => ?_
  · obtain rfl : s = {} := start
    refine ⟨rfl, rfl, List.nodup_nil, fun i => ?_, rfl, Nat.two_pow_pos 32, fun none => absurd none (Nat.lt_irrefl 0)⟩
    simp
  · have h : step s l = some u := h
    cases l with
    | call =>
      obtain rfl := Option.some.inj h
      exact kept.call
    | thread i =>
      obtain ⟨pc, w, pc', at_i, moved, rfl⟩ := step_thread h
      exact kept.thread counts at_i moved
    | writer => exact kept.writer h

/-! ### Asleep -/

/-- The queue is empty, and the logs were printed and written in the order of their links, each once. -/
def AllWritten (s : Logger) : Prop :=
  s.mAsyncLogQueue = [] ∧ s.printed = s.enqueued ∧ s.written = s.enqueued ∧
    ∀ i < s.calls.length, s.written.count i = 1

/-- As long as `mCount` does not wrap around, the writer sleeps on no log. -/
theorem asleep_all_written (run : Run logger Counts tr s) (asleep : Asleep s) : AllWritten s := by
  obtain ⟨printed, written, once, linked, counted, -, awake⟩ := run_kept run
  obtain ⟨returned, event, wait⟩ := asleep
  have uncounted : total Call.uncounted s.calls = 0 :=
    total_eq_zero.mpr fun pc member => by rw [returned pc member]; rfl
  have unsignalled : total Call.unsignalled s.calls = 0 :=
    total_eq_zero.mpr fun pc member => by rw [returned pc member]; rfl
  have none : s.mCount = 0 := by
    by_contra some_counted
    rcases awake (Nat.pos_of_ne_zero some_counted) with set | later | active
    · rw [event] at set
      cases set
    · omega
    · exact active wait
  have empty : s.mAsyncLogQueue = [] := List.eq_nil_of_length_eq_zero (by omega)
  rw [wait, empty] at printed written
  have printed : s.printed = s.enqueued := by simpa [Writer.unprinted] using printed
  have written : s.written = s.enqueued := by simpa [Writer.unwritten] using written
  refine ⟨empty, printed, written, fun i here => ?_⟩
  rw [written]
  have at_i := List.getElem?_eq_getElem here
  have past := returned _ (List.mem_of_getElem? at_i)
  exact List.nodup_iff_count_eq_one.mp once _ ((linked i).mpr ⟨_, at_i, by rw [past]; simp⟩)

/-- Of two calls the second counts first: the writer takes the first one's log, sleeps with the other
in the queue, and is woken when the first has counted too. -/
def lateCount : List Label :=
  [.call, .call, .thread 0, .thread 1, .thread 1, .thread 1] ++ List.replicate 6 .writer ++ [.thread 0, .thread 0] ++
    List.replicate 6 .writer

theorem asleep_after_late_count : ∃ (tr : List (Logger × Label)) (s : Logger),
    tr.map Prod.snd = lateCount ∧ s.enqueued = [0, 1] ∧ AllWritten s := by
  have along : Along logger Counts {} lateCount := by decide +kernel
  obtain ⟨s, reached, run⟩ := Run.along (.init (S := logger) rfl) along
  have facts : (exec logger {} lateCount).map (fun s => (s.enqueued, s.calls, s.mAsyncLogEvent, s.writer)) =
      some ([0, 1], [.returned, .returned], false, .waitForEvent) := by decide +kernel
  rw [reached] at facts
  simp only [Option.map_some, Option.some.injEq, Prod.mk.injEq] at facts
  obtain ⟨enqueued, calls, event, wait⟩ := facts
  exact ⟨_, s, trace_labels reached, enqueued, asleep_all_written run ⟨by rw [calls]; simp, event, wait⟩⟩

/-! ### A counter that wraps around -/

/-- After `n` calls, with the writer never scheduled. -/
def unserved (n : Nat) : Logger where
  mAsyncLogQueue := List.range n
  mCount := n % 2 ^ 32
  mAsyncLogEvent := decide (0 < n)
  calls := List.replicate n .returned
  enqueued := List.range n

theorem unserved_reached (n : Nat) : ∃ tr, Run logger Free tr (unserved n) := by
  induction n with
  | zero => exact ⟨[], .init rfl⟩
  | succ n ih =>
    obtain ⟨tr, run⟩ := ih
    have length : (unserved n).calls.length = n := List.length_replicate
    have last (pc pc' : Call) : ((unserved n).calls ++ [pc]).set n pc' = (unserved n).calls ++ [pc'] := by
      rw [List.set_append_right _ _ (Nat.le_of_eq length), length, Nat.sub_self]
      rfl
    have at_n (pc : Call) : ((unserved n).calls ++ [pc])[n]? = some pc := by
      have here := List.getElem?_concat_length (l := (unserved n).calls) (a := pc)
      rwa [length] at here
    have called : logger.step (unserved n) .call = some { unserved n with calls := (unserved n).calls ++ [.link] } := rfl
    have linked : logger.step { unserved n with calls := (unserved n).calls ++ [.link] } (.thread n) = some { unserved n with
        mAsyncLogQueue := List.range n ++ [n], enqueued := List.range n ++ [n], calls := (unserved n).calls ++ [.count] } := by
      simp only [logger, step, at_n, logMonitorAsync, Option.map_some, last]
      rfl
    have counted : logger.step { unserved n with
        mAsyncLogQueue := List.range n ++ [n], enqueued := List.range n ++ [n], calls := (unserved n).calls ++ [.count] } (.thread n) =
        some { unserved n with
          mAsyncLogQueue := List.range n ++ [n], enqueued := List.range n ++ [n], mCount := inc32 (n % 2 ^ 32)
          calls := (unserved n).calls ++ [.setEvent] } := by
      simp only [logger, step, at_n, logMonitorAsync, Option.map_some, last]
      rfl
    have set : logger.step { unserved n with
        mAsyncLogQueue := List.range n ++ [n], enqueued := List.range n ++ [n], mCount := inc32 (n % 2 ^ 32)
        calls := (unserved n).calls ++ [.setEvent] } (.thread n) = some { unserved n with
          mAsyncLogQueue := List.range n ++ [n], enqueued := List.range n ++ [n], mCount := inc32 (n % 2 ^ 32)
          mAsyncLogEvent := true, calls := (unserved n).calls ++ [.returned] } := by
      simp only [logger, step, at_n, logMonitorAsync, Option.map_some, last]
    have run := (((run.step trivial called).step trivial linked).step trivial counted).step trivial set
    have wrapped : inc32 (n % 2 ^ 32) = (n + 1) % 2 ^ 32 := by
      unfold inc32
      omega
    have same : { unserved n with
        mAsyncLogQueue := List.range n ++ [n], enqueued := List.range n ++ [n], mCount := inc32 (n % 2 ^ 32)
        mAsyncLogEvent := true, calls := (unserved n).calls ++ [.returned] } = unserved (n + 1) := by
      unfold unserved
      simp only [← List.range_succ, wrapped, ← List.replicate_succ', decide_eq_true (Nat.succ_pos n)]
    exact ⟨_, same ▸ run⟩

/-- When the counter has wrapped around to 0, `TryDequeue` returns `false` and the writer sleeps. -/
theorem unserved_sleeps {n : Nat} (some_calls : 0 < n) (wrapped : n % 2 ^ 32 = 0) :
    ∃ tr, Run logger Free tr { unserved n with mAsyncLogEvent := false } := by
  obtain ⟨tr, run⟩ := unserved_reached n
  have event : (unserved n).mAsyncLogEvent = true := decide_eq_true some_calls
  have woken : logger.step (unserved n) .writer = some { unserved n with mAsyncLogEvent := false, writer := .tryDequeue } := by
    show asyncLogThread (unserved n) = _
    unfold asyncLogThread
    exact if_pos (c := (unserved n).mAsyncLogEvent = true) event
  have stopped : logger.step { unserved n with mAsyncLogEvent := false, writer := .tryDequeue } .writer =
      some { unserved n with mAsyncLogEvent := false } := by
    show asyncLogThread { unserved n with mAsyncLogEvent := false, writer := .tryDequeue } = _
    unfold asyncLogThread
    exact if_pos (c := n % 2 ^ 32 = 0) wrapped
  exact ⟨_, (run.step trivial woken).step trivial stopped⟩

/-- 2^32 calls before the writer runs leave 2^32 logs behind. -/
theorem asleep_on_wrapped_count : ∃ tr s, Run logger Free tr s ∧ Asleep s ∧ ¬ AllWritten s := by
  have wraps : ∃ n, 0 < n ∧ n % 2 ^ 32 = 0 := ⟨2 ^ 32, Nat.two_pow_pos 32, Nat.mod_self (2 ^ 32)⟩
  obtain ⟨n, some_calls, wrapped⟩ := wraps
  obtain ⟨tr, run⟩ := unserved_sleeps some_calls wrapped
  refine ⟨tr, _, run, ⟨fun pc member => ?_, rfl, rfl⟩, fun all => ?_⟩
  · exact List.eq_of_mem_replicate member
  · have empty : List.range n = [] := all.1
    rw [List.range_eq_nil] at empty
    omega

end WanNet.Logger
