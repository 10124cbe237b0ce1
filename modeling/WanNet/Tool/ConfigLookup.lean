import Mathlib.Data.List.Infix
import Mathlib.Data.List.Nodup
import Mathlib.Data.List.TakeWhile
import WanNet.Tool.ConfigReader

/-!
# Looking up a key

A configuration is a list of lines `key = integer`. `getInt_exact_iff` says for which arrangements
of keys and integers the lookup of a name is the lookup of the line with that key.
-/

namespace WanNet.ConfigReader

def isWord (c : Nat) : Bool :=
  isDigit c || (65 ≤ c && c ≤ 90) || (97 ≤ c && c ≤ 122) || c == 95

/-- A line `key = integer`. -/
structure Line where
  key : List Nat
  negative : Bool
  digits : List Nat
  key_word : ∀ c ∈ key, isWord c = true
  nonempty : digits ≠ []
  decimals : ∀ d ∈ digits, isDigit d = true

namespace Line

def number (line : Line) : Int := if line.negative then -(decimal line.digits : Int) else decimal line.digits

def sign (line : Line) : List Nat := if line.negative then [45] else []

def text (line : Line) : List Nat :=
  line.key ++ [32, equals, 32] ++ line.sign ++ line.digits ++ [10]

def Fits (line : Line) (type : IntType) : Prop := type.least ≤ line.number ∧ line.number < type.least + type.size

instance (line : Line) (type : IntType) : Decidable (line.Fits type) := inferInstanceAs (Decidable (_ ∧ _))

/-- The name occurs in the key or in the integer of the line. -/
def Mentions (line : Line) (name : List Nat) : Prop :=
  name <:+: line.key ∨ name <:+: line.digits

instance (line : Line) (name : List Nat) : Decidable (line.Mentions name) :=
  inferInstanceAs (Decidable (_ ∨ _))

end Line

variable {name : List Nat}

def configText (lines : List Line) : List Nat := lines.flatMap Line.text

/-- What a lookup of the key `name` owes its caller. -/
def Exact (lines : List Line) (name : List Nat) (outNumber : Int) (result : Bool × Int) : Prop :=
  (∀ line ∈ lines, line.key = name → result = (true, line.number)) ∧
    ((∀ line ∈ lines, line.key ≠ name) → result = (false, outNumber))

/-- The key `name` has a line, and `number` is its integer. -/
def Stands (lines : List Line) (name : List Nat) (number : Int) : Prop :=
  ∃ line ∈ lines, line.key = name ∧ line.number = number

/-- The lines from the first one that mentions the name on. -/
def fromMention (lines : List Line) (name : List Nat) : List Line := lines.dropWhile fun line => ¬ line.Mentions name

/-- The line with the integer that a lookup comes to: the first one that mentions the name, where it
does so in its key, and the next one, where it does so in its integer only. -/
def deciding (lines : List Line) (name : List Nat) : Option Line :=
  match fromMention lines name with
  | [] => none
  | first :: later => if name <:+: first.key then some first else later.head?

/-- In the cells after the text, the name at some place, for the first time, with a cell behind it, and an
`'='` in the cells behind it, the last one left out unless it is the only one. -/
def Leads (name rest : List Nat) : Prop :=
  ∃ before after, rest = before ++ name ++ after ∧ after ≠ [] ∧ (∀ p < before.length, ¬ name <+: rest.drop p) ∧
    equals ∈ after.take (max 1 (after.length - 1))

/-- The deciding line has to hold the integer of the name's own line. Without one, the name has no line
and the cells after the text must not lead to a value: where no line mentions the name, not by the name
in them, and where the last line mentions it, not by an `'='` before their last. -/
def Unshadowed (lines : List Line) (rest name : List Nat) : Prop :=
  match deciding lines name with
  | some line => Stands lines name line.number
  | none => if fromMention lines name = [] then ¬ Leads name rest else equals ∉ rest.dropLast

/-! ### The two loops, without the steps -/

theorem seek_none {r : List Nat} : seek name r = none ↔ ¬ Leads name r := by
  unfold seek
  constructor
  · rintro none ⟨before, after, whole, nonempty, first, holds⟩
    rw [search_some.mpr ⟨before, whole, nonempty, first⟩] at none
    exact skipToEquals_none.mp none holds
  · intro leads
    cases found : search name r with
    | none => rfl
    | some t =>
      obtain ⟨before, whole, nonempty, first⟩ := search_some.mp found
      exact skipToEquals_none.mpr fun holds => leads ⟨before, t, whole, nonempty, first, holds⟩

/-- The scan that starts at the newline of a line. -/
theorem skipToEquals_rest {r : List Nat} : (if r.length ≤ 1 then none else skipToEquals r) = none ↔ equals ∉ r.dropLast := by
  rw [List.dropLast_eq_take]
  split
  next short => simp [show r.length - 1 = 0 by omega]
  next long => rw [skipToEquals_none, show max 1 (r.length - 1) = r.length - 1 by omega]

/-! ### The loops on one line -/

theorem Locale.digit_decimal (locale : Locale) (width : Width) {d : Nat} (decimal : ConfigReader.isDigit d = true) :
    locale.digit width d = some (d - 48) := by
  have low : d < 128 := by
    simp [ConfigReader.isDigit] at decimal
    omega
  rw [locale.digit_ascii width d low, if_pos decimal]

theorem Locale.isDigit_of_isDigit (locale : Locale) (width : Width) {d : Nat} (decimal : ConfigReader.isDigit d = true) :
    locale.isDigit width d = true := by
  rw [Locale.isDigit, locale.digit_decimal width decimal]
  rfl

theorem Locale.decimal_eq (locale : Locale) (width : Width) {digits : List Nat} (decimals : ∀ d ∈ digits, ConfigReader.isDigit d = true) :
    locale.decimal width digits = ConfigReader.decimal digits := by
  unfold Locale.decimal ConfigReader.decimal
  refine List.foldl_ext _ _ 0 fun n d held => ?_
  rw [locale.digit_decimal width (decimals d held)]
  rfl

theorem not_word_mem {c : Nat} (word : ∀ c ∈ name, isWord c = true) (other : isWord c = false) : c ∉ name := by
  intro inside
  rw [word c inside] at other
  cases other

namespace Line

theorem text_append (line : Line) (r : List Nat) :
    line.text ++ r = line.key ++ 32 :: equals :: 32 :: (line.sign ++ (line.digits ++ 10 :: r)) := by
  simp [text]

/-- A number that follows `'='` on a line is read whole. -/
theorem scanInt_value (locale : Locale) (width : Width) {type : IntType} (line : Line) (fits : line.Fits type) (r : List Nat) (outNumber : Int) :
    scanInt locale width type (32 :: (line.sign ++ (line.digits ++ 10 :: r))) outNumber = line.number := by
  have digits : (line.digits ++ 10 :: r).takeWhile (locale.isDigit width) = line.digits := by
    rw [List.takeWhile_append_of_pos fun d held => locale.isDigit_of_isDigit width (line.decimals d held)]
    have newline : locale.isDigit width 10 = false := by simp [Locale.isDigit, locale.digit_ascii width 10 (by decide), isDigit]
    simp [newline]
  obtain ⟨d, ds, shape⟩ := List.exists_cons_of_ne_nil line.nonempty
  have decimal_first : isDigit d = true := line.decimals d (by simp [shape])
  have bounds : 48 ≤ d ∧ d ≤ 57 := by simpa [isDigit] using decimal_first
  have blank : locale.space width 32 = true := locale.space_ascii width 32 (by decide)
  have blank_no : locale.space width d = false := by
    rw [locale.space_ascii width d (by omega)]
    simp [isSpace]
    omega
  have stored : type.store line.number = line.number := IntType.store_eq fits.1 fits.2
  have signs : scanSign ((32 :: (line.sign ++ (line.digits ++ 10 :: r))).dropWhile (locale.space width)) =
      (line.negative, line.digits ++ 10 :: r) := by
    rw [List.dropWhile_cons, if_pos blank, sign, shape]
    cases line.negative with
    | true =>
      have minus : locale.space width 45 = false := locale.space_ascii width 45 (by decide)
      simp [minus, scanSign]
    | false =>
      have plain : ∀ cells, scanSign (d :: cells) = (false, d :: cells) := by
        intro cells
        unfold scanSign
        split
        · rename_i same
          cases same
          omega
        · rename_i same
          cases same
          omega
        · rfl
      simp [blank_no, plain]
  rw [scanInt, signs]
  simp only [digits, locale.decimal_eq width line.decimals]
  rw [if_neg (by simpa using line.nonempty)]
  exact stored

/-- Blanks, `'='` and signs are passed over one by one. -/
theorem search_between {c : Nat} {r : List Nat} (nonempty : name ≠ []) (word : ∀ c ∈ name, isWord c = true)
    (other : isWord c = false) : search name (c :: r) = search name r :=
  search_pass (k := []) nonempty (not_word_mem word other) fun holds => nonempty (List.infix_nil.mp holds)

theorem search_value (line : Line) (r : List Nat) (nonempty : name ≠ [])
    (word : ∀ c ∈ name, isWord c = true) (free : ¬ name <:+: line.key) :
    search name (line.text ++ r) = search name (line.digits ++ 10 :: r) := by
  rw [text_append, search_pass nonempty (not_word_mem word rfl) free, search_between nonempty word rfl,
    search_between nonempty word rfl, sign]
  cases line.negative with
  | true => exact search_between nonempty word rfl
  | false => rfl

theorem seek_pass (line : Line) (r : List Nat) (nonempty : name ≠ [])
    (word : ∀ c ∈ name, isWord c = true) (free : ¬ line.Mentions name) :
    seek name (line.text ++ r) = seek name r := by
  obtain ⟨no_key, no_digits⟩ := not_or.mp free
  rw [seek, line.search_value r nonempty word no_key, search_pass nonempty (not_word_mem word rfl) no_digits]
  rfl

/-- From a suffix of the key the scan reaches the line's own `'='`. -/
theorem skipToEquals_key {t : List Nat} (r : List Nat) (within : ∀ c ∈ t, isWord c = true) :
    skipToEquals (t ++ 32 :: equals :: 32 :: r) = some (32 :: r) := by
  have absent : equals ∉ t := fun inside => by cases within equals inside
  rw [skipToEquals_pass absent (by simp)]
  simp [skipToEquals, equals]

theorem seek_key (line : Line) (r : List Nat) (word : ∀ c ∈ name, isWord c = true)
    (holds : name <:+: line.key) :
    seek name (line.text ++ r) = some (32 :: (line.sign ++ (line.digits ++ 10 :: r))) := by
  obtain ⟨t, found, ends⟩ := search_stop (c := 32) (r := equals :: 32 :: (line.sign ++ (line.digits ++ 10 :: r)))
    (not_word_mem word rfl) holds
  have within : ∀ c ∈ t, isWord c = true := fun c inside => line.key_word c (ends.subset inside)
  rw [seek, text_append, found]
  exact skipToEquals_key _ within

/-- A name found in the integer sends the scan into what follows the line. -/
theorem seek_digits (line : Line) (r : List Nat) (nonempty : name ≠ [])
    (word : ∀ c ∈ name, isWord c = true) (free : ¬ name <:+: line.key) (holds : name <:+: line.digits) :
    seek name (line.text ++ r) = if r.length ≤ 1 then none else skipToEquals r := by
  obtain ⟨t, found, ends⟩ := search_stop (c := 10) (r := r) (not_word_mem word rfl) holds
  have absent : equals ∉ t := fun inside => by cases line.decimals equals (ends.subset inside)
  rw [seek, line.search_value r nonempty word free, found]
  show skipToEquals (t ++ 10 :: r) = _
  cases r with
  | nil =>
    have clear : equals ∉ t ++ [10] := by
      simp only [List.mem_append, List.mem_singleton, not_or]
      exact ⟨absent, by decide⟩
    rw [skipToEquals_none.mpr fun held => clear (List.mem_of_mem_take held)]
    rfl
  | cons c r =>
    rw [skipToEquals_pass absent (by simp), skipToEquals, if_neg (by decide)]

end Line

/-! ### The lookup in the whole text -/

section Lookup

variable {locale : Locale} {width : Width} {type : IntType} {lines later : List Line} {first next : Line} {rest beyond : List Nat}
  {outNumber number : Int}

theorem configText_cons (line : Line) (lines : List Line) (rest : List Nat) :
    configText (line :: lines) ++ rest = line.text ++ (configText lines ++ rest) := by
  simp [configText]

/-- The lookup starts at the first line that mentions the name. -/
theorem seek_fromMention (lines : List Line) (rest : List Nat) (nonempty : name ≠ []) (word : ∀ c ∈ name, isWord c = true) :
    seek name (configText lines ++ rest) = seek name (configText (fromMention lines name) ++ rest) := by
  unfold fromMention
  induction lines with
  | nil => rfl
  | cons line lines ih =>
    by_cases mentioned : line.Mentions name
    · rw [List.dropWhile_cons_of_neg (by simpa using mentioned)]
    · rw [List.dropWhile_cons_of_pos (by simpa using mentioned), configText_cons,
        line.seek_pass _ nonempty word mentioned, ih]

theorem first_mentions (start : fromMention lines name = first :: later) : first.Mentions name := by
  unfold fromMention at start
  have found : lines.dropWhile (fun line => ¬ line.Mentions name) ≠ [] := by
    rw [start]
    exact List.cons_ne_nil first later
  have holds := List.head_dropWhile_not (fun line : Line => decide ¬ line.Mentions name) found
  simp only [start, List.head_cons] at holds
  simpa using holds

theorem mem_fromMention {line : Line} (listed : line ∈ lines) (keyed : line.key = name) : line ∈ fromMention lines name := by
  have mentions : line.Mentions name := .inl (keyed ▸ List.infix_refl _)
  rw [← List.takeWhile_append_dropWhile (p := fun line : Line => decide ¬ line.Mentions name) (l := lines)] at listed
  refine (List.mem_append.mp listed).resolve_left fun passed => ?_
  have silent := List.mem_takeWhile_imp passed
  exact absurd mentions (by simpa using silent)

/-- The deciding line's integer is what is stored. -/
theorem getInt_deciding {line : Line} (nonempty : name ≠ []) (word : ∀ c ∈ name, isWord c = true)
    (decides : deciding lines name = some line) (fits : line.Fits type) :
    getInt locale width type (some ⟨configText lines ++ rest, beyond⟩) name outNumber = (true, line.number) := by
  have found := seek_fromMention lines rest nonempty word
  unfold deciding at decides
  cases start : fromMention lines name with
  | nil =>
    rw [start] at decides
    cases decides
  | cons first later =>
    rw [start] at decides
    simp only at decides
    by_cases holds : name <:+: first.key
    · rw [if_pos holds] at decides
      obtain rfl := Option.some.inj decides
      rw [start, configText_cons, first.seek_key _ word holds] at found
      simp only [getInt, found, List.cons_append, List.append_assoc, first.scanInt_value locale width fits]
    · rw [if_neg holds] at decides
      obtain ⟨later, rfl⟩ := List.head?_eq_some_iff.mp decides
      have long : ¬ (line.text ++ (configText later ++ rest)).length ≤ 1 := by
        simp only [line.text_append, List.length_append, List.length_cons]
        omega
      rw [start, configText_cons, first.seek_digits _ nonempty word holds ((first_mentions start).resolve_left holds), configText_cons,
        if_neg long, line.text_append, Line.skipToEquals_key _ line.key_word] at found
      simp only [getInt, found, List.cons_append, List.append_assoc, line.scanInt_value locale width fits]

/-- With distinct keys, a value that is found is the right one when it stands on the name's line. -/
theorem exact_found (distinct : (lines.map Line.key).Nodup) :
    Exact lines name outNumber (true, number) ↔ Stands lines name number := by
  constructor
  · intro exact
    by_cases keyed : ∃ line ∈ lines, line.key = name
    · obtain ⟨line, listed, same⟩ := keyed
      have stored := exact.1 line listed same
      exact ⟨line, listed, same, by simpa using stored.symm⟩
    · have missed := exact.2 fun line listed same => keyed ⟨line, listed, same⟩
      simp at missed
  · rintro ⟨line, listed, same, rfl⟩
    refine ⟨fun other also keyed => ?_, fun none => absurd same (none line listed)⟩
    rw [List.inj_on_of_nodup_map distinct listed also (same.trans keyed.symm)]

theorem exact_missed (absent : ∀ line ∈ lines, line.key ≠ name) : Exact lines name outNumber (false, outNumber) :=
  ⟨fun line listed keyed => absurd keyed (absent line listed), fun _ => rfl⟩

/-- Where no line has the key, only a value from the cells after the text can be wrong. -/
theorem exact_absent (absent : ∀ line ∈ lines, line.key ≠ name) {file : File} :
    Exact lines name outNumber (getInt locale width type (some file) name outNumber) ↔ seek name file.fileString = none := by
  unfold getInt
  constructor
  · intro exact
    have missed := exact.2 absent
    cases found : seek name file.fileString with
    | none => rfl
    | some cells => simp [found] at missed
  · intro nothing
    simp only [nothing]
    exact exact_missed absent

/-- Without a deciding line the name has none, and the cells after the text decide. -/
theorem seek_undecided (rest : List Nat) (nonempty : name ≠ []) (word : ∀ c ∈ name, isWord c = true) (undecided : deciding lines name = none) :
    (∀ line ∈ lines, line.key ≠ name) ∧ (seek name (configText lines ++ rest) = none ↔
      if fromMention lines name = [] then ¬ Leads name rest else equals ∉ rest.dropLast) := by
  have listed := fun (line : Line) (listed : line ∈ lines) (keyed : line.key = name) => mem_fromMention listed keyed
  have found := seek_fromMention lines rest nonempty word
  unfold deciding at undecided
  cases start : fromMention lines name with
  | nil =>
    rw [start] at listed found
    refine ⟨fun line held keyed => List.not_mem_nil (listed line held keyed), ?_⟩
    rw [if_pos rfl, found, ← seek_none]
    rfl
  | cons first later =>
    rw [start] at undecided
    simp only at undecided
    have free : ¬ name <:+: first.key := fun holds => by
      rw [if_pos holds] at undecided
      cases undecided
    rw [if_neg free, List.head?_eq_none_iff] at undecided
    subst undecided
    refine ⟨fun line held keyed => ?_, ?_⟩
    · have last := listed line held keyed
      rw [start, List.mem_singleton] at last
      exact free (last ▸ keyed ▸ List.infix_refl _)
    · rw [start, configText_cons, first.seek_digits _ nonempty word free ((first_mentions start).resolve_left free)] at found
      rw [if_neg (List.cons_ne_nil first []), found, configText, List.flatMap_nil, List.nil_append, skipToEquals_rest]

/-- `GetInt` looks up exactly the named key, in those configurations where no other line shadows it. -/
theorem getInt_exact_iff (locale : Locale) (width : Width) (distinct : (lines.map Line.key).Nodup) (nonempty : name ≠ [])
    (word : ∀ c ∈ name, isWord c = true) (fits : ∀ line ∈ deciding lines name, line.Fits type) :
    Exact lines name outNumber (getInt locale width type (some ⟨configText lines ++ rest, beyond⟩) name outNumber) ↔
      Unshadowed lines rest name := by
  unfold Unshadowed
  cases decides : deciding lines name with
  | some line =>
    rw [getInt_deciding nonempty word decides (fits line decides)]
    exact exact_found distinct
  | none =>
    obtain ⟨absent, undecided⟩ := seek_undecided rest nonempty word decides
    rw [exact_absent absent]
    exact undecided

def portLine : Line := ⟨[112, 111, 114, 116], false, [55], by decide, by decide, by decide⟩

/-- `max = 2000`, `delta = -5`, `port = 7` and `port2 = 9`. -/
def serverConfig : List Line := [
  ⟨[109, 97, 120], false, [50, 48, 48, 48], by decide, by decide, by decide⟩,
  ⟨[100, 101, 108, 116, 97], true, [53], by decide, by decide, by decide⟩,
  portLine,
  ⟨[112, 111, 114, 116, 50], false, [57], by decide, by decide, by decide⟩]

/-- The names `port` and `host` in a buffer that goes on behind the text with `host`, a 0 and an `'='`. -/
theorem getInt_port_host :
    getInt .c .wchar .unsignedInt (some ⟨configText serverConfig ++ [104, 111, 115, 116, 0, 61], []⟩) portLine.key 0 = (true, 7) ∧
      getInt .c .wchar .unsignedInt (some ⟨configText serverConfig ++ [104, 111, 115, 116, 0, 61], []⟩) [104, 111, 115, 116] 3 = (false, 3) := by
  have port : Exact serverConfig portLine.key 0
      (getInt .c .wchar .unsignedInt (some ⟨configText serverConfig ++ [104, 111, 115, 116, 0, 61], []⟩) portLine.key 0) ↔ _ :=
    getInt_exact_iff .c .wchar (by decide) (by decide) (by decide) (by decide)
  have host : Exact serverConfig [104, 111, 115, 116] 3
      (getInt .c .wchar .unsignedInt (some ⟨configText serverConfig ++ [104, 111, 115, 116, 0, 61], []⟩) [104, 111, 115, 116] 3) ↔ _ :=
    getInt_exact_iff .c .wchar (by decide) (by decide) (by decide) (by decide)
  have listed : portLine ∈ serverConfig := by simp [serverConfig]
  have stands : Stands serverConfig portLine.key 7 := ⟨portLine, listed, rfl, rfl⟩
  have leftover : ¬ Leads [104, 111, 115, 116] [104, 111, 115, 116, 0, 61] := seek_none.mp (by decide)
  exact ⟨(port.mpr stands).1 portLine listed rfl, (host.mpr leftover).2 (by decide)⟩

/-- `port2 = 5` in front of `port = 7`: the lookup of `port` stores 5. -/
theorem getInt_port_stores_port2 : ∃ port2 port : Line,
    configText [port2, port] = [112, 111, 114, 116, 50, 32, 61, 32, 53, 10, 112, 111, 114, 116, 32, 61, 32, 55, 10] ∧
      port.key = [112, 111, 114, 116] ∧ port2.key ≠ port.key ∧
      getInt .c .char .int (some ⟨configText [port2, port], []⟩) port.key 0 = (true, 5) ∧
      ¬ Exact [port2, port] port.key 0 (getInt .c .char .int (some ⟨configText [port2, port], []⟩) port.key 0) := by
  let port2 : Line := ⟨[112, 111, 114, 116, 50], false, [53], by decide, by decide, by decide⟩
  let port : Line := ⟨[112, 111, 114, 116], false, [55], by decide, by decide, by decide⟩
  have stored : getInt .c .char .int (some ⟨configText [port2, port], []⟩) port.key 0 = (true, 5) := by decide
  refine ⟨port2, port, rfl, rfl, by decide, stored, fun exact => ?_⟩
  have owed := exact.1 port (by simp) rfl
  rw [stored] at owed
  exact absurd owed (by decide)

end Lookup

end WanNet.ConfigReader
