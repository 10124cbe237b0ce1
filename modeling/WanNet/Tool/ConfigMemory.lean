import Mathlib.Data.List.TakeWhile
import WanNet.Tool.ConfigReader

/-!
# What a lookup reads

The buffer holds `fileSize` code units, and `fread` fills fewer of them: line ends shrink, and the
wide overloads count the bytes of the file as code units. `file_decides_iff` says which files and
names never lead a lookup out of the cells that were filled.
-/

namespace WanNet.ConfigReader

/-- The bytes that `fread` delivers of a file opened with `"r"`: CR LF comes in as LF, and Ctrl-Z ends
the file. -/
def fread : List Nat → List Nat
  | [] => []
  | 26 :: _ => []
  | 13 :: 10 :: bytes => 10 :: fread bytes
  | c :: bytes => c :: fread bytes

def Width.size : Width → Nat
  | .char => 1
  | .wchar => 2

/-- Memory as code units. -/
def Width.cells : Width → List Nat → List Nat
  | .char, bytes => bytes
  | .wchar, low :: high :: bytes => (low + 256 * high) :: Width.wchar.cells bytes
  | .wchar, _ => []

/-- The memory that `fread` did not fill: the rest of `new char[fileSize]`, or `new WCHAR[fileSize]`, and
what lies behind it. -/
structure Heap (width : Width) (content : List Nat) where
  bytes : List Nat
  enough : width.size * content.length ≤ (fread content).length + bytes.length

/-- What the loops find in memory; `fileSize` is the length of the file in bytes. -/
def Heap.file {width : Width} {content : List Nat} (heap : Heap width content) : File :=
  let memory := width.cells (fread content ++ heap.bytes)
  ⟨memory.take content.length, memory.drop content.length⟩

inductive Overload where
  | getInt (width : Width) (type : IntType)
  | getString (width : Width) (outStringSize : Nat)
deriving DecidableEq, Repr

namespace Overload

def width : Overload → Width
  | .getInt width _ | .getString width _ => width

abbrev Out : Overload → Type
  | .getInt _ _ => Int
  | .getString _ _ => List Nat

def call (locale : Locale) : (o : Overload) → Option File → List Nat → o.Out → Bool × o.Out
  | .getInt width type, file, valueName, outNumber => ConfigReader.getInt locale width type file valueName outNumber
  | .getString width outStringSize, file, valueName, outString =>
    ConfigReader.getString locale width outStringSize file valueName outString

def scan (locale : Locale) : (o : Overload) → List Nat → o.Out → o.Out
  | .getInt width type, cells, outNumber => scanInt locale width type cells outNumber
  | .getString width outStringSize, cells, outString => scanString locale width outStringSize cells outString

end Overload

/-! ### How far the loops look -/

section Looks

variable (space digit : Nat → Bool)

/-- `strncmp` looks at the cells up to the first that differs. -/
def compared : List Nat → List Nat → Nat
  | [], _ => 0
  | _ :: _, [] => 1
  | c :: name, d :: cells => if c = d then compared name cells + 1 else 1

/-- `%d` and the like look at the digits and one cell more. -/
def digitsLook : List Nat → Nat
  | [] => 1
  | c :: cells => if digit c then digitsLook cells + 1 else 1

def isSign (c : Nat) : Bool := c == 45 || c == 43

def numberLooks : List Nat → Nat
  | [] => 1
  | c :: cells =>
    if space c then numberLooks cells + 1
    else if isSign c then digitsLook digit cells + 1
    else digitsLook digit (c :: cells)

/-- `%s` looks no further when `room` cells are used up. -/
def wordLooks : Nat → List Nat → Nat
  | _, [] => 1
  | room, c :: cells => if c = 0 ∨ space c ∨ room ≤ 1 then 1 else wordLooks (room - 1) cells + 1

def stringLooks (outStringSize : Nat) : List Nat → Nat
  | [] => 1
  | c :: cells => if space c then stringLooks outStringSize cells + 1 else wordLooks space outStringSize (c :: cells)

end Looks

def Overload.scanLooks (locale : Locale) : Overload → List Nat → Nat
  | .getInt width _ => numberLooks (locale.space width) (locale.isDigit width)
  | .getString width outStringSize => stringLooks (locale.space width) outStringSize

/-- The scan for `'='` and the `scanf` behind it. -/
def valueLooks (scanLooks : List Nat → Nat) (beyond : List Nat) : List Nat → Nat
  | [] => 0
  | c :: cells =>
    if c = equals then scanLooks (cells ++ beyond) + 1
    else if cells.length ≤ 1 then 1
    else valueLooks scanLooks beyond cells + 1

/-- The whole lookup: one more than the index of the furthest cell that it looks at. -/
def looks (scanLooks : List Nat → Nat) (valueName beyond : List Nat) : List Nat → Nat
  | [] => 0
  | c :: cells =>
    if (c :: cells).length ≤ valueName.length then 0
    else if valueName.isPrefixOf (c :: cells) then
      valueName.length + valueLooks scanLooks beyond ((c :: cells).drop valueName.length)
    else max (compared valueName (c :: cells)) (looks scanLooks valueName beyond cells + 1)

def Overload.looks (locale : Locale) (o : Overload) (file : File) (valueName : List Nat) : Nat :=
  ConfigReader.looks (o.scanLooks locale) valueName file.beyond file.fileString

/-! ### Which files keep it inside -/

def filled (width : Width) (content : List Nat) : List Nat := width.cells (fread content)

/-- As far as both go, a cell of the one differs from that of the other. -/
def Differ (name cells : List Nat) : Prop := ¬ name <+: cells ∧ ¬ cells <+: name

/-- Behind blanks, a sign and digits there is another cell. -/
def NumberEnds (space digit : Nat → Bool) (cells : List Nat) : Prop := (scanSign (cells.dropWhile space)).2.dropWhile digit ≠ []

/-- Behind blanks there is a string that ends, or fills `outStringSize` cells. -/
def StringEnds (space : Nat → Bool) (outStringSize : Nat) (cells : List Nat) : Prop :=
  let rest := cells.dropWhile space
  rest ≠ [] ∧ (outStringSize ≤ rest.length ∨ rest.dropWhile (fun c => c != 0 && !space c) ≠ [])

def Overload.Ends (locale : Locale) : Overload → List Nat → Prop
  | .getInt width _ => NumberEnds (locale.space width) (locale.isDigit width)
  | .getString width outStringSize => StringEnds (locale.space width) outStringSize

/-- Behind the name, with `left` cells of the buffer to go: there is an `'='` that the scan gets to and a
value that ends, or there is none in the cells that the scan looks at, and these were filled. -/
def ValueInside (ends : List Nat → Prop) (left : Nat) (cells : List Nat) : Prop :=
  (∃ before value, cells = before ++ equals :: value ∧ equals ∉ before ∧ before.length < max 1 (left - 1) ∧ ends value) ∨
    (max 1 (left - 1) ≤ cells.length ∧ equals ∉ cells.take (max 1 (left - 1)))

/-- Where the search may look, the filled cells differ from the name, or the first place where they do not
holds the whole name, and the value. -/
def Inside (ends : List Nat → Prop) (name : List Nat) (fileSize : Nat) (cells : List Nat) : Prop :=
  (∀ p, p + name.length < fileSize → Differ name (cells.drop p)) ∨
    ∃ p, p + name.length < fileSize ∧ (∀ q < p, Differ name (cells.drop q)) ∧ name <+: cells.drop p ∧
      ValueInside ends (fileSize - (p + name.length)) (cells.drop (p + name.length))

/-! ### The value -/

section Value

variable {ends : List Nat → Prop} {scanLooks : List Nat → Nat} {T X B B' R R' F name : List Nat}
variable {locale : Locale} {width : Width} {space digit : Nat → Bool}

theorem digitsLook_append (T X : List Nat) : digitsLook digit (T ++ X) ≤ T.length ↔ T.dropWhile digit ≠ [] := by
  induction T with
  | nil =>
    cases X with
    | nil => simp [digitsLook]
    | cons x X =>
      simp only [List.nil_append, digitsLook]
      split <;> simp
  | cons c T ih =>
    simp only [List.cons_append, digitsLook, List.dropWhile_cons, List.length_cons]
    split
    · rw [← ih]
      omega
    · simp

theorem scanSign_of_not {c : Nat} (plain : isSign c = false) (T : List Nat) : (scanSign (c :: T)).2 = c :: T := by
  unfold scanSign
  split
  · rename_i same
    cases same
    cases plain
  · rename_i same
    cases same
    cases plain
  · rfl

theorem scanSign_of_sign {c : Nat} (sign : isSign c = true) (T : List Nat) : (scanSign (c :: T)).2 = T := by
  simp only [isSign, Bool.or_eq_true, beq_iff_eq] at sign
  rcases sign with rfl | rfl <;> rfl

theorem numberLooks_append (T X : List Nat) : numberLooks space digit (T ++ X) ≤ T.length ↔ NumberEnds space digit T := by
  induction T with
  | nil =>
    have positive : 0 < numberLooks space digit X := by
      cases X with
      | nil => exact Nat.one_pos
      | cons x X =>
        simp only [numberLooks, digitsLook]
        split
        · exact Nat.succ_pos _
        · split
          · exact Nat.succ_pos _
          · split <;> exact Nat.succ_pos _
    simp only [NumberEnds, List.nil_append, List.length_nil, List.dropWhile_nil, scanSign]
    simp
    omega
  | cons c T ih =>
    simp only [List.cons_append, numberLooks, List.length_cons]
    by_cases blank : space c = true
    · have same : NumberEnds space digit (c :: T) ↔ NumberEnds space digit T := by simp [NumberEnds, blank]
      rw [if_pos blank, same, ← ih]
      omega
    · have stays : (c :: T).dropWhile space = c :: T := by simp [blank]
      rw [if_neg blank, NumberEnds, stays]
      by_cases sign : isSign c = true
      · rw [if_pos sign, scanSign_of_sign sign, ← digitsLook_append T X]
        omega
      · rw [if_neg sign, scanSign_of_not (by simpa using sign), ← digitsLook_append (c :: T) X]
        rfl

theorem blank_not_word {c : Nat} (blank : space c = true) : (c != 0 && !space c) = false := by simp [blank]

theorem wordLooks_append (room : Nat) (U X : List Nat) : wordLooks space room (U ++ X) ≤ U.length ↔
    U ≠ [] ∧ (room ≤ U.length ∨ U.dropWhile (fun c => c != 0 && !space c) ≠ []) := by
  induction U generalizing room with
  | nil =>
    cases X with
    | nil => simp [wordLooks]
    | cons x X =>
      simp only [List.nil_append, wordLooks]
      split <;> simp
  | cons c U ih =>
    simp only [List.cons_append, wordLooks, List.length_cons, List.dropWhile_cons]
    by_cases stops : c = 0 ∨ space c = true
    · have other : (c != 0 && !space c) = false := by
        rcases stops with rfl | blank
        · rfl
        · exact blank_not_word blank
      rw [if_pos (stops.imp_right .inl), other]
      simp
    · obtain ⟨nonzero, dark⟩ := not_or.mp stops
      have goes : (c != 0 && !space c) = true := by simp [nonzero, dark]
      rw [goes, if_pos rfl]
      by_cases full : room ≤ 1
      · rw [if_pos (.inr (.inr full))]
        simp
        omega
      · rw [if_neg (by simp [nonzero, dark]; omega)]
        have further := ih (room - 1)
        have nonempty : U.dropWhile (fun c => c != 0 && !space c) ≠ [] → U ≠ [] := by
          rintro rest rfl
          exact rest rfl
        have long : room ≤ U.length + 1 → U ≠ [] := by
          rintro fits rfl
          simp at fits
          omega
        constructor
        · intro inside
          obtain ⟨-, fits | ends⟩ := further.mp (by omega)
          · exact ⟨List.cons_ne_nil _ _, .inl (by omega)⟩
          · exact ⟨List.cons_ne_nil _ _, .inr ends⟩
        · rintro ⟨-, fits | ends⟩
          · have := further.mpr ⟨long fits, .inl (by omega)⟩
            omega
          · have := further.mpr ⟨nonempty ends, .inr ends⟩
            omega

theorem stringLooks_append (outStringSize : Nat) (T X : List Nat) :
    stringLooks space outStringSize (T ++ X) ≤ T.length ↔ StringEnds space outStringSize T := by
  induction T with
  | nil =>
    have positive : 0 < stringLooks space outStringSize X := by
      cases X with
      | nil => exact Nat.one_pos
      | cons x X =>
        simp only [stringLooks, wordLooks]
        split
        · exact Nat.succ_pos _
        · split <;> exact Nat.succ_pos _
    simp [StringEnds]
    omega
  | cons c T ih =>
    by_cases blank : space c = true
    · have same : StringEnds space outStringSize (c :: T) ↔ StringEnds space outStringSize T := by simp [StringEnds, blank]
      rw [same, ← ih, List.cons_append, stringLooks, if_pos blank, List.length_cons]
      omega
    · have stays : (c :: T).dropWhile space = c :: T := by simp [blank]
      rw [List.cons_append, stringLooks, if_neg blank, ← List.cons_append, wordLooks_append, StringEnds, stays]

/-! ### What is scanned inside the filled cells does not depend on the others -/

theorem takeWhile_append_of_rest {p : Nat → Bool} (rest : T.dropWhile p ≠ []) : (T ++ X).takeWhile p = T.takeWhile p := by
  induction T with
  | nil => exact absurd rfl rest
  | cons c T ih =>
    rw [List.cons_append, List.takeWhile_cons, List.takeWhile_cons]
    split
    next goes =>
      rw [List.dropWhile_cons, if_pos goes] at rest
      rw [ih rest]
    next => rfl

theorem dropWhile_append_of_rest {p : Nat → Bool} (rest : T.dropWhile p ≠ []) : (T ++ X).dropWhile p = T.dropWhile p ++ X := by
  induction T with
  | nil => exact absurd rfl rest
  | cons c T ih =>
    rw [List.cons_append, List.dropWhile_cons, List.dropWhile_cons]
    split
    next goes =>
      rw [List.dropWhile_cons, if_pos goes] at rest
      exact ih rest
    next => rfl

theorem scanSign_append {c : Nat} (T X : List Nat) : scanSign (c :: T ++ X) = ((scanSign (c :: T)).1, (scanSign (c :: T)).2 ++ X) := by
  unfold scanSign
  split
  · rename_i same
    cases same
    rfl
  · rename_i same
    cases same
    rfl
  · rename_i minus plus
    split
    · rename_i same
      cases same
      exact absurd rfl (minus _)
    · rename_i same
      cases same
      exact absurd rfl (plus _)
    · rfl

theorem scanInt_append {type : IntType} {outNumber : Int} (ends : NumberEnds (locale.space width) (locale.isDigit width) T) :
    scanInt locale width type (T ++ X) outNumber = scanInt locale width type T outNumber := by
  unfold NumberEnds at ends
  have rest : T.dropWhile (locale.space width) ≠ [] := by
    intro none
    rw [none] at ends
    exact ends rfl
  obtain ⟨c, U, shape⟩ := List.exists_cons_of_ne_nil rest
  rw [shape] at ends
  unfold scanInt
  rw [dropWhile_append_of_rest rest, shape, scanSign_append]
  simp only [takeWhile_append_of_rest ends]

theorem scanString_append {outStringSize : Nat} {outString : List Nat} (ends : StringEnds (locale.space width) outStringSize T) :
    scanString locale width outStringSize (T ++ X) outString = scanString locale width outStringSize T outString := by
  obtain ⟨rest, ends⟩ := ends
  unfold scanString
  rw [dropWhile_append_of_rest rest]
  generalize T.dropWhile (locale.space width) = U at rest ends
  rcases Classical.em (U.dropWhile (fun c => c != 0 && !locale.space width c) = []) with whole | stops
  · -- the string runs to the end of the cells and fills the buffer
    have all : ∀ c ∈ U, (c != 0 && !locale.space width c) = true := List.dropWhile_eq_nil_iff.mp whole
    have fits : outStringSize ≤ U.length := ends.resolve_right fun stops => stops whole
    have alone : U.takeWhile (fun c => c != 0 && !locale.space width c) = U := List.takeWhile_eq_self_iff.mpr all
    rw [List.takeWhile_append_of_pos all, alone]
    by_cases zero : outStringSize = 0
    · simp [zero]
    · simp only [List.isEmpty_iff, List.append_eq_nil_iff, rest, false_and, or_false, if_neg zero, List.length_append]
      rw [if_pos fits, if_pos (Nat.le_trans fits (Nat.le_add_right _ _))]
  · simp only [takeWhile_append_of_rest stops]

/-! ### The scan for the sign -/

theorem valueInside_cons {c left : Nat} (other : c ≠ equals) (long : 2 < left) :
    ValueInside ends left (c :: T) ↔ ValueInside ends (left - 1) T := by
  have wide : max 1 (left - 1) = max 1 (left - 1 - 1) + 1 := by omega
  unfold ValueInside
  rw [wide]
  simp only [List.length_cons, List.take_succ_cons, List.mem_cons, not_or]
  constructor
  · rintro (⟨before, value, shape, absent, near, good⟩ | ⟨enough, -, absent⟩)
    · cases before with
      | nil =>
        obtain ⟨same, -⟩ := List.cons.inj shape
        exact absurd same other
      | cons d before =>
        obtain ⟨rfl, rfl⟩ := List.cons.inj shape
        rw [List.length_cons] at near
        exact .inl ⟨before, value, rfl, fun inside => absent (.tail _ inside), by omega, good⟩
    · exact .inr ⟨by omega, absent⟩
  · rintro (⟨before, value, rfl, absent, near, good⟩ | ⟨enough, absent⟩)
    · refine .inl ⟨c :: before, value, rfl, fun inside => ?_, by rw [List.length_cons]; omega, good⟩
      rcases List.mem_cons.mp inside with same | inside
      · exact other same.symm
      · exact absent inside
    · exact .inr ⟨by omega, Ne.symm other, absent⟩

theorem valueLooks_pos (scanLooks : List Nat → Nat) (B T : List Nat) (nonempty : T ≠ []) : 0 < valueLooks scanLooks B T := by
  cases T with
  | nil => exact absurd rfl nonempty
  | cons c T =>
    simp only [valueLooks]
    split
    · exact Nat.succ_pos _
    · split <;> exact Nat.succ_pos _

theorem valueLooks_append (stops : ∀ T X, scanLooks (T ++ X) ≤ T.length ↔ ends T) (T R : List Nat) (nonempty : T ++ R ≠ []) :
    valueLooks scanLooks B (T ++ R) ≤ T.length ↔ ValueInside ends (T.length + R.length) T := by
  induction T with
  | nil =>
    have positive := valueLooks_pos scanLooks B ([] ++ R) nonempty
    simp only [ValueInside, List.length_nil]
    constructor
    · omega
    · rintro (⟨before, value, shape, -⟩ | ⟨enough, -⟩)
      · simp at shape
      · omega
  | cons c T ih =>
    rw [List.cons_append, valueLooks, List.length_cons]
    by_cases same : c = equals
    · subst same
      rw [if_pos rfl, List.append_assoc, Nat.add_le_add_iff_right, stops]
      constructor
      · intro good
        exact .inl ⟨[], T, rfl, List.not_mem_nil, Nat.lt_of_lt_of_le Nat.zero_lt_one (Nat.le_max_left _ _), good⟩
      · rintro (⟨before, value, shape, absent, -, good⟩ | ⟨-, absent⟩)
        · cases before with
          | nil =>
            obtain ⟨-, rfl⟩ := List.cons.inj shape
            exact good
          | cons d before =>
            obtain ⟨rfl, -⟩ := List.cons.inj shape
            simp at absent
        · rw [show max 1 (T.length + 1 + R.length - 1) = max 1 (T.length + R.length) - 1 + 1 by omega, List.take_succ_cons] at absent
          exact absurd (.head _) absent
    · rw [if_neg same]
      by_cases short : (T ++ R).length ≤ 1
      · rw [if_pos short]
        rw [List.length_append] at short
        have narrow : max 1 (T.length + 1 + R.length - 1) = 1 := by omega
        refine ⟨fun _ => .inr ?_, fun _ => by omega⟩
        rw [narrow]
        simp [Ne.symm same]
      · have nonempty : T ++ R ≠ [] := by
          intro none
          rw [none] at short
          exact short (Nat.zero_le _)
        rw [List.length_append] at short
        rw [if_neg (by rw [List.length_append]; exact short), valueInside_cons same (by omega), Nat.add_le_add_iff_right, ih nonempty]
        rw [show T.length + 1 + R.length - 1 = T.length + R.length by omega]

theorem skipToEquals_append {β : Type} (scan : List Nat → β) (stops : ∀ T X X', scanLooks (T ++ X) ≤ T.length → scan (T ++ X) = scan (T ++ X'))
    (same : R.length = R'.length) (nonempty : T ++ R ≠ []) (inside : valueLooks scanLooks B (T ++ R) ≤ T.length) :
    (skipToEquals (T ++ R)).map (fun cells => scan (cells ++ B)) = (skipToEquals (T ++ R')).map fun cells => scan (cells ++ B') := by
  induction T with
  | nil =>
    have positive := valueLooks_pos scanLooks B ([] ++ R) nonempty
    exact absurd inside (Nat.not_le.mpr positive)
  | cons c T ih =>
    have lengths : (T ++ R').length = (T ++ R).length := by rw [List.length_append, List.length_append, same]
    rw [List.cons_append, valueLooks, List.length_cons] at inside
    rw [List.cons_append, List.cons_append, skipToEquals, skipToEquals, lengths]
    by_cases here : c = equals
    · rw [if_pos here, List.append_assoc] at inside
      rw [if_pos here, if_pos here, Option.map_some, Option.map_some, List.append_assoc, List.append_assoc,
        stops T (R ++ B) (R' ++ B') (Nat.le_of_succ_le_succ inside)]
    · rw [if_neg here] at inside
      rw [if_neg here, if_neg here]
      by_cases short : (T ++ R).length ≤ 1
      · rw [if_pos short, if_pos short]
        rfl
      · have nonempty : T ++ R ≠ [] := by
          intro none
          rw [none] at short
          exact short (Nat.zero_le _)
        rw [if_neg short] at inside
        rw [if_neg short, if_neg short]
        exact ih nonempty (Nat.le_of_succ_le_succ inside)

/-! ### The search -/

theorem compared_append (differs : ¬ name <+: F ++ R) : compared name (F ++ R) ≤ F.length ↔ ¬ F <+: name := by
  induction F generalizing name with
  | nil =>
    cases name with
    | nil => exact absurd List.nil_prefix differs
    | cons c name =>
      cases R with
      | nil => simp [compared]
      | cons d R =>
        simp only [List.nil_append, compared]
        split <;> simp
  | cons d F ih =>
    cases name with
    | nil => exact absurd List.nil_prefix differs
    | cons c name =>
      rw [List.cons_append, List.cons_prefix_cons] at differs
      simp only [List.cons_append, compared, List.cons_prefix_cons, List.length_cons]
      by_cases same : c = d
      · rw [if_pos same, Nat.add_le_add_iff_right, ih fun starts => differs ⟨same, starts⟩]
        simp [same]
      · rw [if_neg same]
        simp [Ne.symm same]

theorem inside_short (short : fileSize ≤ name.length) (F : List Nat) : Inside ends name fileSize F :=
  .inl fun p room => absurd room (by omega)

theorem inside_here (long : name.length < fileSize) (starts : name <+: F) :
    Inside ends name fileSize F ↔ ValueInside ends (fileSize - name.length) (F.drop name.length) := by
  constructor
  · rintro (apart | ⟨p, room, before, holds, value⟩)
    · exact absurd starts (apart 0 (by omega)).1
    · cases p with
      | zero => simpa using value
      | succ p => exact absurd starts (before 0 (Nat.succ_pos p)).1
  · intro value
    exact .inr ⟨0, by omega, fun q early => absurd early (Nat.not_lt_zero q), starts, by simpa using value⟩

theorem inside_cut (long : name.length < fileSize) (part : F <+: name) (whole : ¬ name <+: F) : ¬ Inside ends name fileSize F := by
  rintro (apart | ⟨p, room, before, holds, -⟩)
  · exact (apart 0 (by omega)).2 part
  · cases p with
    | zero => exact whole holds
    | succ p => exact (before 0 (Nat.succ_pos p)).2 part

theorem inside_later {c : Nat} (differ : Differ name (c :: F)) : Inside ends name (fileSize + 1) (c :: F) ↔ Inside ends name fileSize F := by
  constructor
  · rintro (apart | ⟨p, room, before, holds, value⟩)
    · exact .inl fun p room => apart (p + 1) (by omega)
    · cases p with
      | zero => exact absurd holds differ.1
      | succ p =>
        refine .inr ⟨p, by omega, fun q early => before (q + 1) (by omega), holds, ?_⟩
        rw [show fileSize - (p + name.length) = fileSize + 1 - (p + 1 + name.length) by omega]
        rw [show p + 1 + name.length = p + name.length + 1 by omega, List.drop_succ_cons] at value
        rw [show p + 1 + name.length = p + name.length + 1 by omega]
        exact value
  · rintro (apart | ⟨p, room, before, holds, value⟩)
    · refine .inl fun p room => ?_
      cases p with
      | zero => exact differ
      | succ p => exact apart p (by omega)
    · refine .inr ⟨p + 1, by omega, fun q early => ?_, holds, ?_⟩
      · cases q with
        | zero => exact differ
        | succ q => exact before q (by omega)
      · rw [show p + 1 + name.length = p + name.length + 1 by omega, List.drop_succ_cons, Nat.add_sub_add_right]
        exact value

theorem looks_append (stops : ∀ T X, scanLooks (T ++ X) ≤ T.length ↔ ends T) (F R : List Nat) :
    looks scanLooks name B (F ++ R) ≤ F.length ↔ Inside ends name (F.length + R.length) F := by
  have matched (C D : List Nat) (long : name.length < (C ++ D).length) (starts : name <+: C) :
      name.length + valueLooks scanLooks B ((C ++ D).drop name.length) ≤ C.length ↔
        ValueInside ends (C.length + D.length - name.length) (C.drop name.length) := by
    have fits := starts.length_le
    have left : (C ++ D).drop name.length = C.drop name.length ++ D := List.drop_append_of_le_length fits
    have nonempty : C.drop name.length ++ D ≠ [] := by
      rw [← left]
      intro none
      rw [List.drop_eq_nil_iff] at none
      omega
    have value := valueLooks_append (B := B) stops (C.drop name.length) D nonempty
    rw [left, show C.length + D.length - name.length = (C.drop name.length).length + D.length by rw [List.length_drop]; omega, ← value,
      List.length_drop]
    omega
  induction F with
  | nil =>
    cases R with
    | nil => exact ⟨fun _ => inside_short (Nat.zero_le _) [], fun _ => Nat.le_refl 0⟩
    | cons x R =>
      rw [List.nil_append, looks]
      by_cases short : (x :: R).length ≤ name.length
      · rw [if_pos short]
        exact ⟨fun _ => inside_short (by simpa using short) [], fun _ => Nat.le_refl 0⟩
      · have long : name.length < ([] : List Nat).length + (x :: R).length := by
          rw [List.length_nil]
          omega
        rw [if_neg short]
        by_cases whole : name <+: []
        · obtain rfl := List.prefix_nil.mp whole
          rw [inside_here long whole, if_pos (by simp)]
          exact matched [] (x :: R) (by simp) whole
        · have leaves : ¬ Inside ends name (([] : List Nat).length + (x :: R).length) [] := inside_cut long List.nil_prefix whole
          have nonempty : name ≠ [] := fun none => whole (none ▸ List.nil_prefix)
          have some_ : 0 < name.length := List.length_pos_iff.mpr nonempty
          refine ⟨fun inside => absurd inside ?_, fun inside => absurd inside leaves⟩
          rw [List.length_nil]
          split
          · omega
          · omega
  | cons c F ih =>
    rw [List.cons_append, looks]
    by_cases short : (c :: (F ++ R)).length ≤ name.length
    · rw [if_pos short]
      refine ⟨fun _ => inside_short ?_ _, fun _ => Nat.zero_le _⟩
      simp at short ⊢
      omega
    · rw [if_neg short]
      have long : name.length < (c :: F).length + R.length := by
        simp at short ⊢
        omega
      by_cases starts : name <+: c :: F
      · have found : name.isPrefixOf (c :: (F ++ R)) = true := by
          rw [List.isPrefixOf_iff_prefix, ← List.cons_append]
          exact starts.trans (List.prefix_append _ _)
        rw [if_pos found, inside_here long starts]
        exact matched (c :: F) R (by rw [List.length_append]; exact long) starts
      · by_cases part : c :: F <+: name
        · refine ⟨fun inside => absurd inside ?_, fun inside => absurd inside (inside_cut long part starts)⟩
          have shorter : (c :: F).length < name.length :=
            Nat.lt_of_le_of_ne part.length_le fun same => starts (part.eq_of_length same ▸ List.prefix_refl _)
          split
          · omega
          next differs =>
            have far : compared name (c :: F ++ R) ≤ (c :: F).length ↔ ¬ c :: F <+: name := compared_append (by simpa using differs)
            rw [List.cons_append] at far
            have := mt far.mp (by simpa using part)
            omega
        · have differs : ¬ name <+: c :: F ++ R := by
            intro holds
            rcases List.prefix_or_prefix_of_prefix holds (List.prefix_append (c :: F) R) with before | after
            · exact starts before
            · exact part after
          have near := (compared_append (R := R) differs).mpr part
          rw [List.cons_append] at differs near
          rw [if_neg (by simpa using differs), show (c :: F).length + R.length = F.length + R.length + 1 by rw [List.length_cons]; omega,
            inside_later ⟨starts, part⟩]
          refine Iff.trans ?_ ih
          rw [List.length_cons] at near ⊢
          omega

theorem seek_append {β : Type} (scan : List Nat → β) (stops : ∀ T X X', scanLooks (T ++ X) ≤ T.length → scan (T ++ X) = scan (T ++ X'))
    (same : R.length = R'.length) (inside : looks scanLooks name B (F ++ R) ≤ F.length) :
    (seek name (F ++ R)).map (fun cells => scan (cells ++ B)) = (seek name (F ++ R')).map fun cells => scan (cells ++ B') := by
  induction F with
  | nil =>
    cases R with
    | nil =>
      obtain rfl := List.length_eq_zero_iff.mp same.symm
      rfl
    | cons x R =>
      obtain ⟨x', R', rfl⟩ := List.exists_cons_of_length_eq_add_one same.symm
      rw [List.nil_append, looks] at inside
      rw [List.nil_append, List.nil_append, seek, seek, search, search, same]
      by_cases short : (x' :: R').length ≤ name.length
      · rw [if_pos short, if_pos short]
        rfl
      · rw [same, if_neg short] at inside
        split at inside
        next =>
          have nonempty : (x :: R).drop name.length ≠ [] := by
            intro none
            rw [List.drop_eq_nil_iff] at none
            omega
          have := valueLooks_pos scanLooks B _ nonempty
          rw [List.length_nil] at inside
          omega
        next =>
          rw [List.length_nil] at inside
          omega
  | cons c F ih =>
    have lengths : (c :: (F ++ R')).length = (c :: (F ++ R)).length := by simp [same]
    rw [List.cons_append, looks] at inside
    rw [List.cons_append, List.cons_append, seek, seek, search, search, lengths]
    by_cases short : (c :: (F ++ R)).length ≤ name.length
    · rw [if_pos short, if_pos short]
      rfl
    rw [if_neg short] at inside
    rw [if_neg short, if_neg short]
    by_cases found : name.isPrefixOf (c :: (F ++ R)) = true
    · rw [if_pos found] at inside
      have fits : name.length ≤ (c :: F).length := by omega
      have whole : name <+: c :: F := by
        rw [List.isPrefixOf_iff_prefix, ← List.cons_append] at found
        exact List.prefix_of_prefix_length_le found (List.prefix_append _ _) fits
      have again : name.isPrefixOf (c :: (F ++ R')) = true := by
        rw [List.isPrefixOf_iff_prefix, ← List.cons_append]
        exact whole.trans (List.prefix_append _ _)
      have left (D : List Nat) : (c :: (F ++ D)).drop name.length = (c :: F).drop name.length ++ D := by
        rw [← List.cons_append]
        exact List.drop_append_of_le_length fits
      have nonempty : (c :: F).drop name.length ++ R ≠ [] := by
        rw [← left]
        intro none
        rw [List.drop_eq_nil_iff] at none
        omega
      rw [left] at inside
      rw [if_pos found, if_pos again, left, left]
      refine skipToEquals_append scan stops same nonempty ?_
      rw [List.length_drop]
      omega
    · rw [if_neg found] at inside
      have differs : ¬ name <+: c :: F ++ R := by simpa using found
      have part : ¬ c :: F <+: name := by
        refine (compared_append (R := R) differs).mp ?_
        rw [List.cons_append]
        omega
      have again : ¬ name.isPrefixOf (c :: (F ++ R')) = true := by
        intro holds
        rw [List.isPrefixOf_iff_prefix, ← List.cons_append] at holds
        rcases List.prefix_or_prefix_of_prefix holds (List.prefix_append (c :: F) R') with before | after
        · exact differs (before.trans (List.prefix_append _ _))
        · exact part after
      rw [if_neg found, if_neg again]
      refine ih ?_
      rw [List.length_cons] at inside
      omega

end Value

/-! ### Every overload -/

theorem fread_length_le (content : List Nat) : (fread content).length ≤ content.length := by
  fun_induction fread content with
  | case1 => exact Nat.le_refl 0
  | case2 => exact Nat.zero_le _
  | case3 bytes ih =>
    simp only [List.length_cons]
    omega
  | case4 c bytes _ _ ih =>
    simp only [List.length_cons]
    omega

theorem Width.cells_prefix (width : Width) (bytes more : List Nat) : width.cells bytes <+: width.cells (bytes ++ more) := by
  fun_induction width.cells bytes with
  | case1 bytes =>
    rw [Width.cells]
    exact List.prefix_append bytes more
  | case2 low high bytes ih => exact (List.prefix_cons_inj _).mpr ih
  | case3 => exact List.nil_prefix

theorem Width.cells_length (width : Width) (bytes : List Nat) : (width.cells bytes).length = bytes.length / width.size := by
  fun_induction width.cells bytes with
  | case1 bytes => exact (Nat.div_one _).symm
  | case2 low high bytes ih =>
    rw [List.length_cons, ih]
    exact (Nat.add_div_right bytes.length (Nat.succ_pos 1)).symm
  | case3 bytes short =>
    cases bytes with
    | nil => rfl
    | cons low bytes =>
      cases bytes with
      | nil => exact (Nat.div_eq_of_lt (Nat.lt_succ_self 1)).symm
      | cons high bytes => exact (short low high bytes rfl).elim

theorem Width.size_pos (width : Width) : 0 < width.size := by
  cases width <;> decide

theorem filled_length_le (width : Width) (content : List Nat) : (filled width content).length ≤ content.length := by
  rw [filled, Width.cells_length]
  exact Nat.le_trans (Nat.div_le_self _ _) (fread_length_le content)

theorem Heap.memory {width : Width} {content : List Nat} (heap : Heap width content) :
    ∃ R B, heap.file = ⟨filled width content ++ R, B⟩ ∧ (filled width content).length + R.length = content.length := by
  obtain ⟨X, memory⟩ := width.cells_prefix (fread content) heap.bytes
  have most := filled_length_le width content
  have enough : content.length ≤ (filled width content).length + X.length := by
    have whole := width.cells_length (fread content ++ heap.bytes)
    rw [← memory, List.length_append, List.length_append] at whole
    rw [filled, whole, Nat.le_div_iff_mul_le width.size_pos, Nat.mul_comm]
    exact heap.enough
  refine ⟨X.take (content.length - (filled width content).length), X.drop (content.length - (filled width content).length), ?_, ?_⟩
  · unfold Heap.file
    simp only [← memory]
    rw [show width.cells (fread content) = filled width content from rfl, List.take_append, List.drop_append,
      List.take_of_length_le most, List.drop_eq_nil_of_le most, List.nil_append]
  · rw [List.length_take]
    omega

/-- The outcome is the same whatever the cells hold that `fread` did not fill, and no such cell is
looked at. -/
def FileDecides (locale : Locale) (o : Overload) (content valueName : List Nat) (out : o.Out) : Prop :=
  (∀ heap heap' : Heap o.width content, o.call locale (some heap.file) valueName out = o.call locale (some heap'.file) valueName out) ∧
    ∀ heap : Heap o.width content, o.looks locale heap.file valueName ≤ (filled o.width content).length

theorem Overload.stops (locale : Locale) (o : Overload) (T X : List Nat) :
    o.scanLooks locale (T ++ X) ≤ T.length ↔ o.Ends locale T := by
  cases o with
  | getInt => exact numberLooks_append T X
  | getString => exact stringLooks_append _ T X

theorem Overload.scan_append (locale : Locale) (o : Overload) (out : o.Out) (T X X' : List Nat)
    (inside : o.scanLooks locale (T ++ X) ≤ T.length) : o.scan locale (T ++ X) out = o.scan locale (T ++ X') out := by
  have ends := (o.stops locale T X).mp inside
  cases o with
  | getInt =>
    exact (scanInt_append ends).trans (scanInt_append ends).symm
  | getString => exact (scanString_append ends).trans (scanString_append ends).symm

theorem Overload.call_eq (locale : Locale) (o : Overload) (file : File) (valueName : List Nat) (out : o.Out) : o.call locale (some file) valueName out =
    (((seek valueName file.fileString).map fun cells => o.scan locale (cells ++ file.beyond) out).map fun stored => (true, stored)).getD (false, out) := by
  cases o
  all_goals
    simp only [Overload.call, Overload.scan, ConfigReader.getInt, ConfigReader.getString]
    cases seek valueName file.fileString <;> rfl

/-- The file alone decides exactly where a lookup finds its end in the filled cells. -/
theorem file_decides_iff (locale : Locale) (o : Overload) (content valueName : List Nat) (out : o.Out) :
    FileDecides locale o content valueName out ↔ Inside (o.Ends locale) valueName content.length (filled o.width content) := by
  constructor
  · rintro ⟨-, inside⟩
    let heap : Heap o.width content := ⟨List.replicate (o.width.size * content.length) 0, by rw [List.length_replicate]; omega⟩
    obtain ⟨R, B, is, size⟩ := heap.memory
    have here := inside heap
    rw [Overload.looks, is] at here
    rw [← size]
    exact (looks_append (o.stops locale) _ R).mp here
  · intro inside
    have stays (heap : Heap o.width content) : o.looks locale heap.file valueName ≤ (filled o.width content).length := by
      obtain ⟨R, B, is, size⟩ := heap.memory
      rw [Overload.looks, is]
      rw [← size] at inside
      exact (looks_append (o.stops locale) _ R).mpr inside
    refine ⟨fun heap heap' => ?_, stays⟩
    have here := stays heap
    obtain ⟨R, B, is, size⟩ := heap.memory
    obtain ⟨R', B', is', size'⟩ := heap'.memory
    rw [Overload.looks, is] at here
    rw [o.call_eq locale, o.call_eq locale, is, is']
    have same : (seek valueName (filled o.width content ++ R)).map (fun cells => o.scan locale (cells ++ B) out) =
        (seek valueName (filled o.width content ++ R')).map fun cells => o.scan locale (cells ++ B') out :=
      seek_append (fun cells => o.scan locale cells out) (o.scan_append locale out) (by omega) here
    exact congrArg (fun found => (found.map fun stored => (true, stored)).getD (false, out)) same

/-- The name `port` in `port=7` without a line end: what follows the buffer joins the number. -/
theorem port_without_line_end : ¬ FileDecides .c (.getInt .char .int) [112, 111, 114, 116, 61, 55] [112, 111, 114, 116] 0 := by
  rintro ⟨same, -⟩
  have outcomes := same ⟨[0], by decide⟩ ⟨[49, 0], by decide⟩
  revert outcomes
  decide

end WanNet.ConfigReader
