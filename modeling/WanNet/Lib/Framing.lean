import Mathlib.Data.List.Basic

/-!
Streams cut into frames: what a reader does with the bytes it has is the same however they came in.
-/

namespace Framing

/-- What the bytes at hand begin with: part of a frame, something that ends the stream, or a frame. -/
inductive Verdict (β P : Type) where
  | wait
  | stop
  | frame (packet : P) (rest : List β)

/-- A verdict that more bytes do not change, unless it was to wait for them. -/
structure Format (β P : Type) where
  next : List β → Verdict β P
  shrinks : ∀ {bytes p rest}, next bytes = .frame p rest → rest.length < bytes.length
  frame_append : ∀ {bytes p rest} more, next bytes = .frame p rest → next (bytes ++ more) = .frame p (rest ++ more)
  stop_append : ∀ {bytes} more, next bytes = .stop → next (bytes ++ more) = .stop

variable {β P : Type} {F : Format β P} {bytes more tail : List β} {packets : List P} {n m : Nat}

theorem Format.induct (F : Format β P) {motive : List β → Prop} (wait : ∀ bytes, F.next bytes = .wait → motive bytes)
    (stop : ∀ bytes, F.next bytes = .stop → motive bytes)
    (frame : ∀ bytes p rest, F.next bytes = .frame p rest → motive rest → motive bytes) (bytes : List β) : motive bytes := by
  induction len : bytes.length using Nat.strongRecOn generalizing bytes with
  | ind k ih =>
    subst len
    cases is : F.next bytes with
    | wait => exact wait bytes is
    | stop => exact stop bytes is
    | frame p rest => exact frame bytes p rest is (ih _ (F.shrinks is) rest rfl)

/-- The packets, and what is left when the next frame is not there yet. -/
def Format.scanFor (F : Format β P) : Nat → List β → List P × Option (List β)
  | 0, bytes => ([], some bytes)
  | n + 1, bytes =>
    match F.next bytes with
    | .wait => ([], some bytes)
    | .stop => ([], none)
    | .frame p rest => (p :: (F.scanFor n rest).1, (F.scanFor n rest).2)

def Format.scan (F : Format β P) (bytes : List β) : List P × Option (List β) := F.scanFor (bytes.length + 1) bytes

theorem scanFor_enough (hn : bytes.length < n) (hm : bytes.length < m) : F.scanFor n bytes = F.scanFor m bytes := by
  induction n generalizing bytes m with
  | zero => omega
  | succ n ih =>
    obtain ⟨m, rfl⟩ : ∃ k, m = k + 1 := ⟨m - 1, by omega⟩
    simp only [Format.scanFor]
    split
    · rfl
    · rfl
    next p rest is =>
      have := F.shrinks is
      have same : F.scanFor n rest = F.scanFor m rest := ih (by omega) (by omega)
      rw [same]

theorem scan_wait (is : F.next bytes = .wait) : F.scan bytes = ([], some bytes) := by simp [Format.scan, Format.scanFor, is]

theorem scan_stop (is : F.next bytes = .stop) : F.scan bytes = ([], none) := by simp [Format.scan, Format.scanFor, is]

theorem scan_frame (is : F.next bytes = .frame p rest) : F.scan bytes = (p :: (F.scan rest).1, (F.scan rest).2) := by
  have same : F.scanFor bytes.length rest = F.scan rest := scanFor_enough (F.shrinks is) (Nat.lt_succ_self _)
  simp only [Format.scan, Format.scanFor, is]
  rw [same]
  rfl

/-- Bytes that come later are read as if they had stood behind what was left. -/
theorem scan_append (scanned : F.scan bytes = (packets, some tail)) (more : List β) :
    F.scan (bytes ++ more) = (packets ++ (F.scan (tail ++ more)).1, (F.scan (tail ++ more)).2) := by
  induction bytes using F.induct generalizing packets with
  | wait bytes is =>
    obtain ⟨rfl, rfl⟩ : [] = packets ∧ bytes = tail := by simpa [scan_wait is] using scanned
    rfl
  | stop bytes is => simp [scan_stop is] at scanned
  | frame bytes p rest is ih =>
    obtain ⟨rfl, left⟩ : p :: (F.scan rest).1 = packets ∧ (F.scan rest).2 = some tail := by
      simpa [scan_frame is] using scanned
    rw [scan_frame (F.frame_append more is), ih (Prod.ext rfl left)]
    rfl

/-! ### Reading as a relation -/

/-- The packets read off the bytes, and what they leave: bytes that begin with no whole frame. -/
inductive Format.Reads (F : Format β P) : List β → List P → List β → Prop
  | still {bytes : List β} (ended : ∀ p rest, F.next bytes ≠ .frame p rest) : F.Reads bytes [] bytes
  | frame {bytes rest tail : List β} {p : P} {packets : List P} (is : F.next bytes = .frame p rest)
      (later : F.Reads rest packets tail) : F.Reads bytes (p :: packets) tail

theorem Format.reads (F : Format β P) (bytes : List β) : ∃ packets tail, F.Reads bytes packets tail := by
  induction bytes using F.induct with
  | wait bytes is => exact ⟨[], bytes, .still fun p rest other => by rw [is] at other; cases other⟩
  | stop bytes is => exact ⟨[], bytes, .still fun p rest other => by rw [is] at other; cases other⟩
  | frame bytes p rest is ih =>
    obtain ⟨packets, tail, later⟩ := ih
    exact ⟨p :: packets, tail, .frame is later⟩

theorem Format.Reads.over {bytes tail : List β} {packets : List P} (read : F.Reads bytes packets tail) :
    ∀ p rest, F.next tail ≠ .frame p rest := by
  induction read with
  | still ended => exact ended
  | frame is later ih => exact ih

theorem Format.Reads.append {bytes tail more tail' : List β} {packets packets' : List P}
    (first : F.Reads bytes packets tail) (second : F.Reads (tail ++ more) packets' tail') :
    F.Reads (bytes ++ more) (packets ++ packets') tail' := by
  induction first with
  | still ended => exact second
  | frame is later ih =>
    rw [List.cons_append]
    exact .frame (F.frame_append more is) (ih second)

theorem Format.Reads.stopped {bytes tail : List β} {packets : List P} (read : F.Reads bytes packets tail)
    (stop : F.next tail = .stop) (more : List β) : F.Reads (bytes ++ more) packets (tail ++ more) := by
  have still : F.Reads (tail ++ more) [] (tail ++ more) :=
    .still fun p rest other => by rw [F.stop_append more stop] at other; cases other
  have both := read.append still
  rwa [List.append_nil] at both

/-! ### Blocks of a stream -/

/-- The blocks lie in the stream one behind the other. -/
def InOrder : List (List β) → List β → Prop
  | [], _ => True
  | block :: later, stream => ∃ gap rest, stream = gap ++ block ++ rest ∧ InOrder later rest

theorem InOrder.append {blocks : List (List β)} {stream : List β} (ordered : InOrder blocks stream) (more : List β) :
    InOrder blocks (stream ++ more) := by
  induction blocks generalizing stream with
  | nil => trivial
  | cons block later ih =>
    obtain ⟨gap, rest, rfl, ordered⟩ := ordered
    exact ⟨gap, rest ++ more, List.append_assoc .., ih ordered⟩

theorem InOrder.snoc {blocks : List (List β)} {stream : List β} (ordered : InOrder blocks stream) (block : List β) :
    InOrder (blocks ++ [block]) (stream ++ block) := by
  induction blocks generalizing stream with
  | nil => exact ⟨stream, [], (List.append_nil _).symm, trivial⟩
  | cons first later ih =>
    obtain ⟨gap, rest, rfl, ordered⟩ := ordered
    exact ⟨gap, rest ++ block, List.append_assoc .., ih ordered⟩

/-! ### Frames written one behind the other -/

/-- The bytes of one packet: a reader takes them for it whatever follows, and waits while they are not all there. -/
structure Format.Writes (F : Format β P) (frame : List β) (p : P) : Prop where
  whole : ∀ more, F.next (frame ++ more) = .frame p more
  part : ∀ part, part <+: frame → part ≠ frame → F.next part = .wait

/-- What a reader has of a stream of frames: some of them, and part of the next. -/
structure Cut (frames : List (List β × P)) (bytes : List β) (sent later : List (List β × P)) (tail : List β) : Prop where
  frames : frames = sent ++ later
  bytes : bytes = sent.flatMap Prod.fst ++ tail
  part : ∀ f ∈ later.head?, tail <+: f.1 ∧ tail ≠ f.1
  ended : later = [] → tail = []

theorem Cut.cons {frames sent later : List (List β × P)} (is : Cut frames bytes sent later tail) (f : List β × P) :
    Cut (f :: frames) (f.1 ++ bytes) (f :: sent) later tail where
  frames := by rw [is.frames, List.cons_append]
  bytes := by rw [is.bytes, List.flatMap_cons, List.append_assoc]
  part := is.part
  ended := is.ended

/-- Who has all the bytes has all the frames. -/
theorem Cut.whole {frames sent later : List (List β × P)} (is : Cut frames bytes sent later tail)
    (all : bytes = frames.flatMap Prod.fst) : later = [] := by
  cases later with
  | nil => rfl
  | cons f later =>
    obtain ⟨begins, apart⟩ := is.part f rfl
    have rest : tail = f.1 ++ later.flatMap Prod.fst := by
      have whole : sent.flatMap Prod.fst ++ tail = sent.flatMap Prod.fst ++ (f.1 ++ later.flatMap Prod.fst) := by
        rw [← is.bytes, all, is.frames, List.flatMap_append, List.flatMap_cons]
      exact List.append_cancel_left whole
    have covers : f.1 <+: tail := ⟨_, rest.symm⟩
    exact absurd (begins.eq_of_length_le covers.length_le) apart

theorem cut (frames : List (List β × P)) (begins : bytes <+: frames.flatMap Prod.fst) :
    ∃ sent later tail, Cut frames bytes sent later tail := by
  induction frames generalizing bytes with
  | nil => exact ⟨[], [], bytes, rfl, rfl, by simp, fun _ => List.prefix_nil.mp begins⟩
  | cons f frames ih =>
    rw [List.flatMap_cons] at begins
    by_cases whole : f.1 <+: bytes
    · obtain ⟨more, rfl⟩ := whole
      obtain ⟨sent, later, tail, rest⟩ := ih ((List.prefix_append_right_inj _).mp begins)
      exact ⟨f :: sent, later, tail, rest.cons f⟩
    · have inside : bytes <+: f.1 :=
        (List.prefix_or_prefix_of_prefix begins (List.prefix_append _ _)).resolve_right whole
      have apart : bytes ≠ f.1 := fun same => whole (same ▸ List.prefix_refl _)
      refine ⟨[], f :: frames, bytes, rfl, rfl, ?_, by simp⟩
      intro g member
      cases member
      exact ⟨inside, apart⟩

/-- A reader gets the packets whose frames it has whole, and keeps the part of the next. -/
theorem Cut.scan {frames sent later : List (List β × P)} (is : Cut frames bytes sent later tail)
    (writes : ∀ f ∈ frames, F.Writes f.1 f.2) (empty : F.next [] = .wait) : F.scan bytes = (sent.map Prod.snd, some tail) := by
  obtain ⟨rfl, rfl, part, ended⟩ := is
  have waits : F.next tail = .wait := by
    cases later with
    | nil =>
      rw [ended rfl]
      exact empty
    | cons f later =>
      obtain ⟨inside, apart⟩ := part f rfl
      exact (writes f (List.mem_append_right _ List.mem_cons_self)).part tail inside apart
  have each : ∀ f ∈ sent, F.Writes f.1 f.2 := fun f member => writes f (List.mem_append_left _ member)
  clear writes part ended
  induction sent with
  | nil => exact scan_wait waits
  | cons f sent ih =>
    have rest := ih fun g member => each g (List.mem_cons_of_mem _ member)
    have is := (each f List.mem_cons_self).whole (sent.flatMap Prod.fst ++ tail)
    rw [List.flatMap_cons, List.append_assoc, scan_frame is, rest]
    rfl

end Framing
