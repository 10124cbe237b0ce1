import WanNet.Lib.Threads

/-!
A reference count with a release flag in its highest bit, for an object that is released by the
holder of the last reference and revived later under a key. Participants may count themselves in at
any time; one that counted itself into a released object must leave again. A participant leaves by
turning a count of 1 into the flag, or else by a plain decrement, which it undoes and retries when
that reached 0.

`Move` is one participant's step; `Inv` is what holds after any interleaving of such steps.
-/

namespace ReleaseCount
open Threads

/-- The shared part: the 32-bit count, the closed mark, the copies of the key to revive the object,
how often it was revived, and the references held by pending operations. -/
structure Core where
  count : Nat
  closed : Bool
  keys : Nat
  revived : Nat
  ops : Nat

/-- Where a participant stands. With `more` it holds one reference besides the one named. -/
inductive Stage where
  | arriving
  | gone
  | reviving (counted : Bool)
  | opening
  | settling
  | checking
  | inside (more : Bool)
  | leaving (more : Bool)
  | undoing (more : Bool)
  | closing (more : Bool)
  | releasing (more : Bool)
  | crashed (refs : Nat)

def flag : Nat := 2 ^ 31

def inc (x : Nat) : Nat := (x + 1) % 2 ^ 32
def dec (x : Nat) : Nat := (2 ^ 32 - 1 + x) % 2 ^ 32

inductive Move : Core → Stage → Core → Stage → Prop where
  | stay (c a) : Move c a c a
  | enter (c : Core) (live : inc c.count < flag) :
      Move c .arriving { c with count := inc c.count } .checking
  | enterReleased (c : Core) (released : flag ≤ inc c.count) :
      Move c .arriving { c with count := inc c.count } (.leaving false)
  | allow (c : Core) (unclosed : c.closed = false) : Move c .checking c (.inside false)
  | refuse (c) : Move c .checking c (.leaving false)
  | revive (c : Core) : Move c (.reviving false) { c with count := inc c.count } (.reviving true)
  | clear (c : Core) :
      Move c (.reviving true) { c with count := c.count % flag, revived := c.revived + 1 } .opening
  | unclose (c : Core) : Move c .opening { c with closed := false } .settling
  | settle (c) : Move c .settling c (.inside false)
  | take (c : Core) : Move c (.inside false) { c with count := inc c.count } (.inside true)
  | post (c : Core) : Move c (.inside true) { c with ops := c.ops + 1 } (.inside false)
  | postAndLeave (c : Core) : Move c (.inside true) { c with ops := c.ops + 1 } (.leaving false)
  | leave (c m) : Move c (.inside m) c (.leaving m)
  | last (c : Core) (m) (one : c.count = 1) : Move c (.leaving m) { c with count := flag } (.closing m)
  | drop (c : Core) (held : dec c.count ≠ 0) : Move c (.leaving false) { c with count := dec c.count } .gone
  | dropOne (c : Core) (held : dec c.count ≠ 0) :
      Move c (.leaving true) { c with count := dec c.count } (.leaving false)
  | dropToZero (c : Core) (m) (zero : dec c.count = 0) :
      Move c (.leaving m) { c with count := dec c.count } (.undoing m)
  | undo (c : Core) (m) : Move c (.undoing m) { c with count := inc c.count } (.leaving m)
  | close (c : Core) (m) (first : c.closed = false) :
      Move c (.closing m) { c with closed := true } (.releasing m)
  | closeTwice (c : Core) (m : Bool) (again : c.closed = true) : Move c (.closing m) c (.crashed m.toNat)
  | giveBack (c : Core) : Move c (.releasing false) { c with keys := c.keys + 1 } .gone
  | giveBackOne (c : Core) : Move c (.releasing true) { c with keys := c.keys + 1 } (.leaving false)
  | crash (c) : Move c (.inside false) c (.crashed 1)

/-! ### Weights of a stage -/

@[simp] def held : Stage → Nat
  | .arriving | .gone => 0
  | .reviving counted => counted.toNat
  | .opening | .settling | .checking => 1
  | .inside more | .leaving more => 1 + more.toNat
  | .undoing more | .closing more | .releasing more => more.toNat
  | .crashed refs => refs

/-- It took the key and has not cleared the flag. -/
@[simp] def reviving : Stage → Nat
  | .reviving _ => 1
  | _ => 0

@[simp] def opening : Stage → Nat
  | .opening => 1
  | _ => 0

@[simp] def closing : Stage → Nat
  | .closing _ => 1
  | _ => 0

/-- It set the flag and has not given back the key. -/
@[simp] def releasing : Stage → Nat
  | .closing _ | .releasing _ => 1
  | _ => 0

/-- It holds a reference that it obtained in the present life of the object and will not give up
in its next step. -/
@[simp] def within : Stage → Nat
  | .opening | .settling | .checking | .inside _ => 1
  | .leaving more | .undoing more => more.toNat
  | _ => 0

/-- It entered through the closed mark, or past it. -/
@[simp] def settled : Stage → Nat
  | .settling | .inside _ => 1
  | .leaving more | .undoing more => more.toNat
  | _ => 0

/-- It is neither gone nor reviving the object. -/
@[simp] def busy : Stage → Nat
  | .gone | .reviving _ => 0
  | _ => 1

theorem within_le_held (a : Stage) : within a ≤ held a := by cases a <;> simp

theorem closing_le_releasing (a : Stage) : closing a ≤ releasing a := by cases a <;> simp

theorem settled_le_within (a : Stage) : settled a ≤ within a := by cases a <;> simp

theorem opening_le_within (a : Stage) : opening a ≤ within a := by cases a <;> simp

/-! ### The count's word -/

theorem inc_flag (few : x % flag < flag - 1) (word : x < 2 ^ 32) :
    inc x < 2 ^ 32 ∧ inc x % flag = x % flag + 1 ∧ (inc x < flag ↔ x < flag) := by
  unfold inc flag at *
  omega

theorem dec_flag (held : 0 < x % flag) (word : x < 2 ^ 32) :
    dec x < 2 ^ 32 ∧ dec x % flag + 1 = x % flag ∧ (dec x < flag ↔ x < flag) := by
  unfold dec flag at *
  omega

/-! ### The invariant -/

/-- The object is alive: revived at least once, and not flagged as released. -/
def Core.live (c : Core) : Nat := if c.count < flag ∧ 0 < c.revived then 1 else 0

def refs (c : Core) (stages : List Stage) : Nat := total held stages + c.ops

structure Inv (c : Core) (stages : List Stage) : Prop where
  word : c.count < 2 ^ 32
  /-- the low 31 bits count the references -/
  refs_eq : c.count % flag = refs c stages
  /-- the key is free, or with the reviver, or the object lives, or it is being released -/
  one_owner : c.keys + total reviving stages + c.live + total releasing stages = 1
  closed_mark : (!c.closed).toNat + total opening stages = c.live + total closing stages
  opening_alone : total opening stages = 0 ∨ (total settled stages = 0 ∧ c.ops = 0)
  pinned : c.live = 1 ∨ (total within stages = 0 ∧ c.ops = 0)
  first_life : 0 < c.revived ∨ flag ≤ c.count ∨ total busy stages = 0

theorem Core.live_eq_one {c : Core} : c.live = 1 ↔ c.count < flag ∧ 0 < c.revived := by
  unfold Core.live
  split <;> simp_all

theorem Core.live_congr {c d : Core} (same : d.count < flag ↔ c.count < flag) (lives : d.revived = c.revived) :
    d.live = c.live := by
  unfold Core.live
  rw [lives]
  simp only [same]

section
variable {c d : Core} {a b : Stage} {stages : List Stage} {i : Nat}

theorem Inv.live_of_within (inv : Inv c stages) (member : a ∈ stages) (inside : 0 < within a) : c.live = 1 := by
  have := le_total (w := within) member
  have := inv.pinned
  omega

theorem Inv.live_of_busy (inv : Inv c stages) (member : a ∈ stages) (present : 0 < busy a)
    (unflagged : c.count < flag) : c.live = 1 := by
  have := le_total (w := busy) member
  have := inv.first_life
  exact Core.live_eq_one.mpr ⟨unflagged, by omega⟩

theorem Inv.opening_le_one (inv : Inv c stages) : total opening stages + (!c.closed).toNat ≤ 1 := by
  have := inv.one_owner
  have := inv.closed_mark
  have := total_le_total closing_le_releasing stages
  omega

theorem Inv.no_opening (inv : Inv c stages) (unclosed : c.closed = false) : total opening stages = 0 := by
  have := inv.opening_le_one
  simp only [unclosed, Bool.not_false, Bool.toNat_true] at this
  omega

theorem Inv.closed_of_opening (inv : Inv c stages) (member : .opening ∈ stages) : c.closed = true := by
  have := le_total (w := opening) member
  have := inv.no_opening
  cases closed : c.closed <;> simp_all

/-- Who entered past the closed mark finds it cleared. -/
theorem Inv.unclosed_of_settled (inv : Inv c stages) (member : a ∈ stages) (inside : 0 < settled a) :
    c.closed = false := by
  have := le_total (w := settled) member
  have live := inv.live_of_within member (Nat.lt_of_lt_of_le inside (settled_le_within a))
  have := inv.opening_alone
  have := inv.closed_mark
  cases closed : c.closed with
  | false => rfl
  | true =>
    simp only [closed, Bool.not_true, Bool.toNat_false] at *
    omega

/-- An object under release is marked closed once only. -/
theorem Inv.open_while_closing (inv : Inv c stages) (member : .closing m ∈ stages) : c.closed = false := by
  have one := le_total (w := closing) member
  have under := le_total (w := releasing) member
  have owner := inv.one_owner
  have mark := inv.closed_mark
  have pinned := inv.pinned
  have := total_le_total opening_le_within stages
  simp only [closing, releasing] at one under
  cases closed : c.closed with
  | false => rfl
  | true =>
    simp only [closed, Bool.not_true, Bool.toNat_false] at mark
    omega

/-- The flag is set by the holder of the only reference, and nothing is pending then. -/
theorem Inv.sole_holder (inv : Inv c stages) (member : .leaving m ∈ stages) (one : c.count = 1) :
    refs c stages = 1 ∧ m = false := by
  have own := le_total (w := held) member
  have refs_eq := inv.refs_eq
  unfold refs flag at *
  rw [one] at refs_eq
  refine ⟨by omega, ?_⟩
  cases m with
  | false => rfl
  | true =>
    simp only [held, Bool.toNat_true] at own
    omega

/-- When the last reference leaves, nobody is within. -/
theorem alone_of_one (at_i : stages[i]? = some (.leaving m)) (all : refs c stages = 1) :
    total within stages = 0 ∧ c.ops = 0 := by
  have own := le_total (w := held) (List.mem_of_getElem? at_i)
  -- taking this participant out leaves nobody with a reference
  have held_rest := total_set (w := held) (b := .gone) at_i
  have within_rest := total_set (w := within) (b := .gone) at_i
  have := total_le_total within_le_held (stages.set i .gone)
  unfold refs at all
  simp only [held, within] at own held_rest within_rest
  omega

theorem Inv.alone_at_last (inv : Inv c stages) (at_i : stages[i]? = some (.leaving m)) (one : c.count = 1) :
    total within stages = 0 ∧ c.ops = 0 :=
  alone_of_one at_i (inv.sole_holder (List.mem_of_getElem? at_i) one).1

/-! ### One step -/

/-- Up to overflow, the low bits of the count follow the references in every move. -/
theorem Move.congr (m : Move c a d b) : (d.count + held a + c.ops) % flag = (c.count + held b + d.ops) % flag := by
  cases m with
  | last m one =>
    simp only [held, one, flag]
    omega
  | _ => simp only [held, inc, dec, flag, Bool.toNat_true, Bool.toNat_false] <;> omega

theorem Move.congr_refs (m : Move c a d b) (at_i : stages[i]? = some a) (same : c.count % flag = refs c stages % flag) :
    d.count % flag = refs d (stages.set i b) % flag := by
  have moved := m.congr
  have changed := total_set (w := held) (b := b) at_i
  unfold refs flag at *
  omega

/-- What a move does to the count: its low bits follow the references, and the flag bit changes
when the object is revived or released only. -/
theorem Inv.move_word (inv : Inv c stages) (at_i : stages[i]? = some a) (m : Move c a d b)
    (few : refs d (stages.set i b) < flag - 1) :
    d.count < 2 ^ 32 ∧ d.count % flag = refs d (stages.set i b) ∧
      ((d.count < flag ↔ c.count < flag) ∧ d.revived = c.revived ∨
        a = .reviving true ∧ d.count < flag ∧ d.revived = c.revived + 1 ∨
        (∃ m, a = .leaving m ∧ b = .closing m) ∧ c.count = 1 ∧ d.count = flag ∧ d.revived = c.revived) := by
  have word := inv.word
  have refs_eq := inv.refs_eq
  have changed := total_set (w := held) (b := b) at_i
  have own := le_total (w := held) (List.mem_of_getElem? at_i)
  unfold refs at *
  cases m with
  | stay => exact ⟨word, by omega, .inl ⟨Iff.rfl, rfl⟩⟩
  | enter | enterReleased | revive | take | undo m =>
    simp only [held, Bool.toNat_true, Bool.toNat_false] at *
    have := inc_flag (x := c.count) (by omega) word
    exact ⟨this.1, by omega, .inl ⟨this.2.2, trivial⟩⟩
  | drop | dropOne | dropToZero m =>
    simp only [held, Bool.toNat_true, Bool.toNat_false] at changed own
    have := dec_flag (x := c.count) (by omega) word
    exact ⟨this.1, by simp only; omega, .inl ⟨this.2.2, rfl⟩⟩
  | clear =>
    simp only [held, Bool.toNat_true] at changed own
    have : c.count % flag < flag := Nat.mod_lt _ (by decide)
    refine ⟨by unfold flag at *; simp only; omega, ?_, .inr (.inl ⟨rfl, this, rfl⟩)⟩
    simp only [Nat.mod_mod]
    omega
  | last m one =>
    simp only [held] at changed own
    refine ⟨by unfold flag; simp only; omega, ?_, .inr (.inr ⟨⟨m, rfl, rfl⟩, one, rfl, rfl⟩)⟩
    rw [one] at refs_eq
    unfold flag at *
    simp only
    omega
  | unclose | post | postAndLeave | close m | giveBack | giveBackOne =>
    simp only [held, Bool.toNat_true, Bool.toNat_false] at changed
    exact ⟨word, by simp only; omega, .inl ⟨Iff.rfl, rfl⟩⟩
  | _ =>
    simp only [held, Bool.toNat_false] at changed
    exact ⟨word, by omega, .inl ⟨Iff.rfl, rfl⟩⟩

/-- Only who sets the flag becomes a releaser. -/
theorem Move.releasing_le (m : Move c a d b) :
    releasing b ≤ releasing a ∨ ∃ m, a = .leaving m ∧ c.count = 1 := by
  cases m with
  | last m one => exact .inr ⟨m, rfl, one⟩
  | _ => exact .inl (by simp)

/-- How the key, the duty to revive or release, and the life of the object change hands. -/
theorem Inv.move_live (inv : Inv c stages) (at_i : stages[i]? = some a) (m : Move c a d b)
    (few : refs d (stages.set i b) < flag - 1) :
    d.keys + reviving b + d.live + releasing b = c.keys + reviving a + c.live + releasing a ∧
      (d.live = c.live ∨ a = .reviving true ∧ c.live = 0 ∧ d.live = 1 ∨
        (∃ m, a = .leaving m ∧ b = .closing m) ∧ refs c stages = 1 ∧ c.live = 1 ∧ d.live = 0) := by
  obtain ⟨-, -, word⟩ := inv.move_word at_i m few
  have member := List.mem_of_getElem? at_i
  have same : (d.count < flag ↔ c.count < flag) ∧ d.revived = c.revived → d.live = c.live :=
    fun h => Core.live_congr h.1 h.2
  cases m with
  | clear =>
    have live : Core.live { c with count := c.count % flag, revived := c.revived + 1 } = 1 :=
      Core.live_eq_one.mpr ⟨Nat.mod_lt _ (by decide), by simp⟩
    have := le_total (w := reviving) member
    have := inv.one_owner
    simp only [reviving, releasing] at *
    exact ⟨by omega, .inr (.inl ⟨trivial, by omega, live⟩)⟩
  | last m one =>
    have live := inv.live_of_busy member (by simp) (by rw [one]; decide)
    have dead : Core.live { c with count := flag } = 0 := by simp [Core.live]
    simp only [reviving, releasing]
    exact ⟨by omega, .inr (.inr ⟨⟨m, rfl, rfl⟩, (inv.sole_holder member one).1, live, dead⟩)⟩
  | closeTwice m again =>
    rw [inv.open_while_closing member] at again
    cases again
  | stay => exact ⟨rfl, .inl rfl⟩
  | _ =>
    have same := same (by
      rcases word with same | ⟨clear, -⟩ | ⟨⟨_, -, last⟩, -⟩
      · exact same
      · cases clear
      · cases last)
    exact ⟨by simp [same, Nat.add_right_comm], .inl same⟩

theorem Inv.move_pinned (inv : Inv c stages) (at_i : stages[i]? = some a) (m : Move c a d b)
    (few : refs d (stages.set i b) < flag - 1) :
    d.live = 1 ∨ (total within (stages.set i b) = 0 ∧ d.ops = 0) := by
  obtain ⟨-, -, word⟩ := inv.move_word at_i m few
  obtain ⟨-, live⟩ := inv.move_live at_i m few
  have member := List.mem_of_getElem? at_i
  have changed := total_set (w := within) (b := b) at_i
  have own := le_total (w := within) member
  rcases inv.pinned with alive | ⟨none, idle⟩
  · cases m with
    | stay => exact .inl alive
    | last m one =>
      have := inv.alone_at_last at_i one
      simp only [within] at changed
      exact .inr ⟨by omega, this.2⟩
    | _ =>
      rcases live with same | ⟨-, -, revived⟩ | ⟨⟨_, -, closing⟩, -⟩
      · exact .inl (same.trans alive)
      · exact .inl revived
      · cases closing
  · by_cases alive : d.live = 1
    · exact .inl alive
    · refine .inr ?_
      cases m with
      | stay => exact ⟨by omega, idle⟩
      | enter entered =>
        -- whoever enters an object without the flag finds it alive
        have same : inc c.count < flag ↔ c.count < flag := by simpa using word
        have before := inv.live_of_busy member (by simp) (same.mp entered)
        have used := (Core.live_eq_one.mp before).2
        have after : Core.live { c with count := inc c.count } = 1 := Core.live_eq_one.mpr ⟨entered, used⟩
        exact absurd after alive
      | clear => exact absurd (Core.live_eq_one.mpr ⟨Nat.mod_lt _ (by decide), by simp⟩) alive
      | _ =>
        simp only [within, Bool.toNat_true, Bool.toNat_false] at changed own ⊢
        exact ⟨by omega, by omega⟩

theorem Inv.move_mark (inv : Inv c stages) (at_i : stages[i]? = some a) (m : Move c a d b)
    (few : refs d (stages.set i b) < flag - 1) :
    (!d.closed).toNat + total opening (stages.set i b) = d.live + total closing (stages.set i b) := by
  obtain ⟨-, live⟩ := inv.move_live at_i m few
  have member := List.mem_of_getElem? at_i
  have mark := inv.closed_mark
  have open_changed := total_set (w := opening) (b := b) at_i
  have close_changed := total_set (w := closing) (b := b) at_i
  have le := total_le_total closing_le_releasing stages
  cases m with
  | stay => omega
  | clear =>
    have after : Core.live { c with count := c.count % flag, revived := c.revived + 1 } = 1 :=
      Core.live_eq_one.mpr ⟨Nat.mod_lt _ (by decide), by simp⟩
    have := le_total (w := reviving) member
    have := inv.one_owner
    simp only [opening, closing, reviving] at *
    omega
  | last m one =>
    have before := inv.live_of_busy member (by simp) (by rw [one]; decide)
    have after : Core.live { c with count := flag } = 0 := by simp [Core.live]
    simp only [opening, closing] at *
    omega
  | unclose =>
    have := inv.closed_of_opening member
    have same : Core.live { c with closed := false } = c.live := Core.live_congr Iff.rfl rfl
    simp_all
    omega
  | close m first =>
    have same : Core.live { c with closed := true } = c.live := Core.live_congr Iff.rfl rfl
    simp_all
    omega
  | closeTwice m again =>
    rw [inv.open_while_closing member] at again
    cases again
  | _ =>
    rcases live with same | ⟨clear, -⟩ | ⟨⟨_, -, last⟩, -⟩
    · rw [same]
      show (!c.closed).toNat + _ = _
      simp only [opening, closing] at open_changed close_changed
      omega
    · cases clear
    · cases last

theorem Inv.move_first (inv : Inv c stages) (at_i : stages[i]? = some a) (m : Move c a d b)
    (few : refs d (stages.set i b) < flag - 1) :
    0 < d.revived ∨ flag ≤ d.count ∨ total busy (stages.set i b) = 0 := by
  obtain ⟨-, -, word⟩ := inv.move_word at_i m few
  have member := List.mem_of_getElem? at_i
  have first := inv.first_life
  have changed := total_set (w := busy) (b := b) at_i
  have own := le_total (w := busy) member
  rcases word with ⟨same, lives⟩ | ⟨-, -, lives⟩ | ⟨-, -, flagged, -⟩
  · rw [lives]
    rcases first with used | flagged | none
    · exact .inl used
    · exact .inr (.inl (by omega))
    · refine .inr (.inr ?_)
      cases m with
      | stay => omega
      | clear => exact absurd lives (by simp)
      | _ => simp only [busy] at changed own; omega
  · exact .inl (by omega)
  · exact .inr (.inl (by omega))

theorem Inv.move_alone (inv : Inv c stages) (at_i : stages[i]? = some a) (m : Move c a d b) :
    total opening (stages.set i b) = 0 ∨ (total settled (stages.set i b) = 0 ∧ d.ops = 0) := by
  have member := List.mem_of_getElem? at_i
  have alone := inv.opening_alone
  have open_changed := total_set (w := opening) (b := b) at_i
  have settled_changed := total_set (w := settled) (b := b) at_i
  have own := le_total (w := settled) member
  cases m with
  | stay => omega
  | clear =>
    have := inv.one_owner
    have := inv.pinned
    have := total_le_total settled_le_within stages
    have := le_total (w := reviving) member
    simp only [opening, settled, reviving] at *
    omega
  | allow unclosed =>
    have := inv.no_opening unclosed
    simp only [opening] at open_changed
    omega
  | unclose =>
    have := inv.opening_le_one
    simp only [opening] at open_changed
    omega
  | _ =>
    simp only [opening, settled, Bool.toNat_true, Bool.toNat_false] at open_changed settled_changed own ⊢
    omega

theorem Inv.move (inv : Inv c stages) (at_i : stages[i]? = some a) (m : Move c a d b)
    (few : refs d (stages.set i b) < flag - 1) : Inv d (stages.set i b) where
  word := (inv.move_word at_i m few).1
  refs_eq := (inv.move_word at_i m few).2.1
  one_owner := by
    have moved := (inv.move_live at_i m few).1
    have := inv.one_owner
    have := total_set (w := reviving) (b := b) at_i
    have := total_set (w := releasing) (b := b) at_i
    omega
  closed_mark := inv.move_mark at_i m few
  opening_alone := inv.move_alone at_i m
  pinned := inv.move_pinned at_i m few
  first_life := inv.move_first at_i m few

/-! ### Arrivals -/

theorem Inv.arrive (inv : Inv c stages) (used : 0 < c.revived ∨ flag ≤ c.count) :
    Inv c (stages ++ [.arriving]) where
  word := inv.word
  refs_eq := by simpa [refs] using inv.refs_eq
  one_owner := by simpa using inv.one_owner
  closed_mark := by simpa using inv.closed_mark
  opening_alone := by simpa using inv.opening_alone
  pinned := by simpa using inv.pinned
  first_life := by omega

theorem Inv.pass_by (inv : Inv c stages) : Inv c (stages ++ [.gone]) where
  word := inv.word
  refs_eq := by simpa [refs] using inv.refs_eq
  one_owner := by simpa using inv.one_owner
  closed_mark := by simpa using inv.closed_mark
  opening_alone := by simpa using inv.opening_alone
  pinned := by simpa using inv.pinned
  first_life := by simpa using inv.first_life

theorem Inv.pop_key (inv : Inv c stages) (key : 0 < c.keys) :
    Inv { c with keys := c.keys - 1 } (stages ++ [.reviving false]) := by
  have same : Core.live { c with keys := c.keys - 1 } = c.live := Core.live_congr Iff.rfl rfl
  refine ⟨inv.word, ?_, ?_, ?_, ?_, ?_, ?_⟩
  · simpa [refs] using inv.refs_eq
  · have := inv.one_owner
    simp only [total_append_one, reviving, releasing, same]
    omega
  · simpa [same] using inv.closed_mark
  · simpa using inv.opening_alone
  · simpa [same] using inv.pinned
  · simpa using inv.first_life

theorem Inv.pick_up (inv : Inv c stages) (pending : 0 < c.ops) (b : Bool) :
    Inv { c with ops := c.ops - 1 } (stages ++ [if b then .inside false else .leaving false]) := by
  have alive : c.live = 1 := by
    have := inv.pinned
    omega
  have same : Core.live { c with ops := c.ops - 1 } = c.live := Core.live_congr Iff.rfl rfl
  refine ⟨inv.word, ?_, ?_, ?_, ?_, .inl (same.trans alive), .inl (Core.live_eq_one.mp alive).2⟩
  · have := inv.refs_eq
    cases b <;> simp [refs] at * <;> omega
  · have := inv.one_owner
    cases b <;> simpa [same] using this
  · have := inv.closed_mark
    cases b <;> simpa [same] using this
  · have := inv.opening_alone
    cases b <;> simp at * <;> omega

end
end ReleaseCount
