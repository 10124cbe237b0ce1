import Mathlib.Data.List.Basic

/-!
# Reading a configuration file (`ConfigReader.h`)

Every overload runs the same two loops over the buffer: a search for the name, then a scan for the
next `'='`. The overloads differ in the width of a code unit and in the `scanf` format of the value.
-/

namespace WanNet.ConfigReader

/-- What `fread` left behind: the `fileSize` cells of the buffer and the memory after them. -/
structure File where
  fileString : List Nat
  beyond : List Nat

/-- `while (strncmp(fileString + i, valueName, valueNameLength) != 0)`, on the cells from `i` on;
the result is the cells after the match. The test before the loop and the one inside it are both
`fileSize - i <= valueNameLength`. -/
def search (valueName : List Nat) : List Nat → Option (List Nat)
  | [] => none
  | c :: cells =>
    if (c :: cells).length ≤ valueName.length then none
    else if valueName.isPrefixOf (c :: cells) then some ((c :: cells).drop valueName.length)
    else search valueName cells

def equals : Nat := 61

/-- `while (fileString[i] != '=')`, on the cells from `i` on; the result is the cells after it. -/
def skipToEquals : List Nat → Option (List Nat)
  | [] => none
  | c :: cells =>
    if c = equals then some cells
    -- i++, then i >= fileSize - 1
    else if cells.length ≤ 1 then none
    else skipToEquals cells

/-- The two loops: the cells after the `'='` that follows the name. -/
def seek (valueName cells : List Nat) : Option (List Nat) :=
  (search valueName cells).bind skipToEquals

/-! ### The formats of `scanf` -/

/-- The code units of the overloads. -/
inductive Width where
  | char
  | wchar
deriving DecidableEq, Repr

def isSpace (c : Nat) : Bool := c == 32 || (9 ≤ c && c ≤ 13)

def isDigit (c : Nat) : Bool := 48 ≤ c && c ≤ 57

def decimal (digits : List Nat) : Nat :=
  digits.foldl (fun n d => 10 * n + (d - 48)) 0

/-- What a C library's `scanf` takes for white space (`isspace`, `iswspace`) and for digits. Past
ASCII it is not the same everywhere; `iswspace` of U+00A0 or U+3000, say, is the library's affair. -/
structure Locale where
  space : Width → Nat → Bool
  digit : Width → Nat → Option Nat
  space_ascii : ∀ width, ∀ c < 128, space width c = isSpace c
  digit_ascii : ∀ width, ∀ c < 128, digit width c = if isDigit c then some (c - 48) else none

def Locale.isDigit (locale : Locale) (width : Width) (c : Nat) : Bool := (locale.digit width c).isSome

def Locale.decimal (locale : Locale) (width : Width) (digits : List Nat) : Nat :=
  digits.foldl (fun n d => 10 * n + (locale.digit width d).getD 0) 0

/-- The locale `"C"`, with the characters that Unicode has as white space. -/
def Locale.c : Locale where
  space width c := isSpace c || width == .wchar && ([0x85, 0xA0, 0x1680, 0x2028, 0x2029, 0x202F, 0x205F, 0x3000].contains c ||
    (0x2000 ≤ c && c ≤ 0x200A))
  digit _ c := if ConfigReader.isDigit c then some (c - 48) else none
  space_ascii width c low := by
    have elsewhere : ([0x85, 0xA0, 0x1680, 0x2028, 0x2029, 0x202F, 0x205F, 0x3000].contains c || (0x2000 ≤ c && c ≤ 0x200A)) = false := by
      simp
      omega
    rw [elsewhere, Bool.and_false, Bool.or_false]
  digit_ascii _ _ _ := rfl

/-- The types of `outNumber`, with the formats `%d`, `%u`, `%lld` and `%llu`. -/
inductive IntType where
  | int
  | unsignedInt
  | longLong
  | unsignedLongLong
deriving DecidableEq, Repr

def IntType.size : IntType → Int
  | .int | .unsignedInt => 4294967296
  | .longLong | .unsignedLongLong => 18446744073709551616

def IntType.least : IntType → Int
  | .int => -2147483648
  | .longLong => -9223372036854775808
  | .unsignedInt | .unsignedLongLong => 0

/-- The value of a type that `number` is stored as. -/
def IntType.store (type : IntType) (number : Int) : Int :=
  type.least + (number - type.least) % type.size

/-- The sign that `%d` and `%u` both take: whether it is a minus, and what follows it. -/
def scanSign : List Nat → Bool × List Nat
  | 45 :: cells => (true, cells)
  | 43 :: cells => (false, cells)
  | cells => (false, cells)

/-- `sscanf_s(cells, format, outNumber)`: blanks, a sign, digits. Without a digit nothing is stored. -/
def scanInt (locale : Locale) (width : Width) (type : IntType) (cells : List Nat) (outNumber : Int) : Int :=
  let (negative, cells) := scanSign (cells.dropWhile (locale.space width))
  let digits := cells.takeWhile (locale.isDigit width)
  if digits.isEmpty then outNumber
  else type.store (if negative then -(locale.decimal width digits : Int) else locale.decimal width digits)

/-- `GetInt`: the return value and what `*outNumber` holds then. There is no file when `fopen_s`
fails. What `sscanf_s` returns is not looked at. -/
def getInt (locale : Locale) (width : Width) (type : IntType) (file : Option File) (valueName : List Nat) (outNumber : Int) :
    Bool × Int :=
  match file with
  | none => (false, outNumber)
  | some file =>
    match seek valueName file.fileString with
    | none => (false, outNumber)
    | some cells => (true, scanInt locale width type (cells ++ file.beyond) outNumber)

/-- `sscanf_s(cells, "%s", outString, outStringSize)`: blanks, and the cells up to the next blank or
the terminator. What does not fit with a terminator of its own leaves an empty string. -/
def scanString (locale : Locale) (width : Width) (outStringSize : Nat) (cells outString : List Nat) : List Nat :=
  let word := (cells.dropWhile (locale.space width)).takeWhile fun c => c != 0 && !locale.space width c
  if outStringSize = 0 ∨ word.isEmpty then outString
  else if outStringSize ≤ word.length then []
  else word

/-- `GetString`: the return value and the string in `outString` then. -/
def getString (locale : Locale) (width : Width) (outStringSize : Nat) (file : Option File) (valueName outString : List Nat) :
    Bool × List Nat :=
  match file with
  | none => (false, outString)
  | some file =>
    match seek valueName file.fileString with
    | none => (false, outString)
    | some cells => (true, scanString locale width outStringSize (cells ++ file.beyond) outString)

theorem IntType.store_eq {type : IntType} {number : Int} (low : type.least ≤ number)
    (high : number < type.least + type.size) : type.store number = number := by
  rw [IntType.store, Int.emod_eq_of_lt (by omega) (by omega)]
  omega

/-! ### The two loops across a cell that is not in the name -/

section Cells

variable {name k t r : List Nat} {c : Nat}

/-- A name without `c` that starts before a `c` ends before it. -/
theorem prefix_before (absent : c ∉ name) (starts : name <+: k ++ c :: r) : name <+: k := by
  rcases List.prefix_or_prefix_of_prefix starts (List.prefix_append k (c :: r)) with before | after
  · exact before
  · obtain ⟨t, rfl⟩ := after
    have reaches := (List.prefix_append_right_inj k).mp starts
    cases t with
    | nil => simp
    | cons d t =>
      obtain ⟨rfl, -⟩ := List.cons_prefix_cons.mp reaches
      simp at absent

theorem search_short (short : r.length ≤ name.length) : search name r = none := by
  cases r with
  | nil => rfl
  | cons c r => rw [search, if_pos short]

/-- The search passes over cells that do not hold the name, up to a cell that is not in it. -/
theorem search_pass (nonempty : name ≠ []) (absent : c ∉ name) (free : ¬ name <:+: k) :
    search name (k ++ c :: r) = search name r := by
  have enough : 0 < name.length := List.length_pos_iff.mpr nonempty
  induction k with
  | nil =>
    have no_match : ¬ name <+: c :: r := fun starts => nonempty (List.prefix_nil.mp (prefix_before (k := []) absent starts))
    rw [List.nil_append, search]
    split
    · rename_i short
      exact (search_short (by simp at short; omega)).symm
    · rw [if_neg (by simpa using no_match)]
  | cons d k ih =>
    have no_match : ¬ name <+: (d :: k) ++ c :: r :=
      fun starts => free (prefix_before absent starts).isInfix
    have further := ih fun inside => free (List.infix_cons inside)
    rw [List.cons_append, search]
    split
    · rename_i short
      exact (search_short (by simp at short; omega)).symm
    · rw [if_neg (by simpa using no_match), further]

theorem search_stop (absent : c ∉ name) (holds : name <:+: k) :
    ∃ t, search name (k ++ c :: r) = some (t ++ c :: r) ∧ t <:+ k := by
  induction k with
  | nil =>
    obtain rfl := List.infix_nil.mp holds
    exact ⟨[], by simp [search], List.suffix_refl _⟩
  | cons d k ih =>
    have long : ¬ (d :: (k ++ c :: r)).length ≤ name.length := by
      have fits := holds.length_le
      simp at fits ⊢
      omega
    rw [List.cons_append, search, if_neg long]
    by_cases starts : name <+: d :: k
    · refine ⟨(d :: k).drop name.length, ?_, List.drop_suffix _ _⟩
      have whole : name.isPrefixOf (d :: (k ++ c :: r)) = true := by
        simpa using starts.trans (List.prefix_append (d :: k) (c :: r))
      rw [if_pos whole, ← List.cons_append, List.drop_append_of_le_length starts.length_le]
    · have no_match : ¬ name.isPrefixOf (d :: (k ++ c :: r)) = true := fun whole =>
        starts (prefix_before absent (List.isPrefixOf_iff_prefix.mp whole))
      obtain ⟨t, found, ends⟩ := ih ((List.infix_cons_iff.mp holds).resolve_left starts)
      exact ⟨t, by rw [if_neg no_match, found], ends.trans (List.suffix_cons d k)⟩

/-- The scan passes over cells without `'='` while two cells remain. -/
theorem skipToEquals_pass (absent : equals ∉ t) (remain : 2 ≤ r.length) :
    skipToEquals (t ++ r) = skipToEquals r := by
  induction t with
  | nil => rfl
  | cons d t ih =>
    have other : d ≠ equals := fun same => absent (same ▸ List.mem_cons_self)
    have long : ¬ (t ++ r).length ≤ 1 := by
      rw [List.length_append]
      omega
    rw [List.cons_append, skipToEquals, if_neg other, if_neg long]
    exact ih fun inside => absent (List.mem_cons_of_mem d inside)

/-- The scan looks at all cells but the last one, and at the first in any case. -/
theorem skipToEquals_none : skipToEquals r = none ↔ equals ∉ r.take (max 1 (r.length - 1)) := by
  induction r with
  | nil => simp [skipToEquals]
  | cons d r ih =>
    rw [skipToEquals, List.length_cons, Nat.add_sub_cancel]
    by_cases short : r.length ≤ 1
    · rw [show max 1 r.length = 0 + 1 by omega, List.take_succ_cons, List.take_zero, List.mem_singleton]
      by_cases here : d = equals
      · simp [here]
      · simp [here, short, Ne.symm here]
    · rw [show max 1 r.length = max 1 (r.length - 1) + 1 by omega, List.take_succ_cons, List.mem_cons, not_or, ← ih, if_neg short]
      by_cases here : d = equals
      · simp [here]
      · simp [here, Ne.symm here]

/-- The search ends behind the first place where the name stands with a cell behind it. -/
theorem search_some : search name r = some t ↔ ∃ before, r = before ++ name ++ t ∧ t ≠ [] ∧ ∀ p < before.length, ¬ name <+: r.drop p := by
  induction r with
  | nil =>
    constructor
    · intro found
      cases found
    · rintro ⟨before, whole, nonempty, -⟩
      exact absurd (List.append_eq_nil_iff.mp whole.symm).2 nonempty
  | cons d r ih =>
    rw [search]
    constructor
    · intro found
      split at found
      · cases found
      next long =>
        split at found
        next holds =>
          obtain ⟨after, whole⟩ := List.isPrefixOf_iff_prefix.mp holds
          obtain rfl := Option.some.inj found
          have lengths := congrArg List.length whole
          rw [List.length_append] at lengths
          rw [← whole, List.drop_left]
          refine ⟨[], rfl, ?_, nofun⟩
          rintro rfl
          rw [List.length_nil] at lengths
          omega
        next differs =>
          obtain ⟨before, rfl, nonempty, first⟩ := ih.mp found
          refine ⟨d :: before, rfl, nonempty, fun p earlier => ?_⟩
          cases p with
          | zero => exact fun holds => differs (List.isPrefixOf_iff_prefix.mpr holds)
          | succ p => exact first p (by simpa using earlier)
    · rintro ⟨before, whole, nonempty, first⟩
      have lengths := congrArg List.length whole
      have some_ := List.length_pos_iff.mpr nonempty
      rw [List.length_append, List.length_append] at lengths
      rw [if_neg (by omega)]
      cases before with
      | nil =>
        rw [List.nil_append] at whole
        rw [if_pos (List.isPrefixOf_iff_prefix.mpr ⟨t, whole.symm⟩), whole, List.drop_left]
      | cons e before =>
        obtain ⟨rfl, rest⟩ := List.cons.inj whole
        have differs : ¬ name <+: d :: r := first 0 (Nat.succ_pos _)
        rw [if_neg (fun holds => differs (List.isPrefixOf_iff_prefix.mp holds))]
        exact ih.mpr ⟨before, rest, nonempty, fun p earlier => first (p + 1) (Nat.succ_lt_succ earlier)⟩

end Cells

end WanNet.ConfigReader
