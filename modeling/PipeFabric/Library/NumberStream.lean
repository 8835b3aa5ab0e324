import Mathlib.Data.List.Basic
import Mathlib.Data.List.TakeWhile
import Mathlib.Tactic.ByContra

/-!
# Reading integers from a text

A stream over a text from which integers are extracted, as by `operator>>` with the white
space skipped and in base ten.  An extraction that fails leaves the stream in a state in
which it gives nothing more, and the end of the text is noticed when a number touches it.
-/

namespace NumberStream

def isSpace (c : Char) : Bool := c.toNat = 32 || (9 ≤ c.toNat && c.toNat ≤ 13)

def isDigit (c : Char) : Bool := 48 ≤ c.toNat && c.toNat ≤ 57

theorem isDigit_iff {c : Char} : isDigit c = true ↔ 48 ≤ c.toNat ∧ c.toNat ≤ 57 := by
  rw [isDigit, Bool.and_eq_true, decide_eq_true_eq, decide_eq_true_eq]

theorem isSpace_iff {c : Char} :
    isSpace c = true ↔ c.toNat = 32 ∨ (9 ≤ c.toNat ∧ c.toNat ≤ 13) := by
  rw [isSpace, Bool.or_eq_true, Bool.and_eq_true, decide_eq_true_eq, decide_eq_true_eq,
    decide_eq_true_eq]

theorem not_isSpace_of_isDigit {c : Char} (digit : isDigit c = true) : ¬ isSpace c = true := by
  rw [isDigit_iff] at digit
  rw [isSpace_iff]
  omega

theorem not_isDigit_of_isSpace {c : Char} (blank : isSpace c = true) : ¬ isDigit c = true :=
  fun digit => not_isSpace_of_isDigit digit blank

/-- The sign of a number can be left out. -/
inductive Sign where
  | none
  | plus
  | minus
  deriving DecidableEq

namespace Sign

def text : Sign → List Char
  | none => []
  | plus => ['+']
  | minus => ['-']

/-- The number with this sign. -/
def apply : Sign → Nat → Int
  | minus, magnitude => -magnitude
  | _, magnitude => magnitude

end Sign

/-- The sign at the front, and what comes after it. -/
def takeSign : List Char → Sign × List Char
  | [] => (.none, [])
  | c :: rest =>
      if c = '-' then (.minus, rest) else if c = '+' then (.plus, rest) else (.none, c :: rest)

def magnitude (digits : List Char) : Nat :=
  digits.foldl (fun number c => 10 * number + (c.toNat - 48)) 0

/-- A stream over a text, with the flags of its state. -/
structure TextStream where
  rest : List Char
  failbit : Bool
  eofbit : Bool

/-- The stream at the beginning of a text. -/
def TextStream.ofText (text : List Char) : TextStream := ⟨text, false, false⟩

theorem TextStream.not_eofbit_ofText (text : List Char) : ¬ (ofText text).eofbit = true :=
  Bool.false_ne_true

/-- `operator>>` for a type with the values from `lowest` to `highest`.  A stream that is
not good leaves the variable as it is. -/
def TextStream.extract (lowest highest : Int) (stream : TextStream) (v : Int) :
    TextStream × Int :=
  if stream.failbit || stream.eofbit then ({ stream with failbit := true }, v)
  else
    let text := stream.rest.dropWhile isSpace
    if text = [] then (⟨[], true, true⟩, v)
    else
      let sign := (takeSign text).1
      let digits := (takeSign text).2.takeWhile isDigit
      let rest := (takeSign text).2.dropWhile isDigit
      let value := sign.apply (magnitude digits)
      if digits = [] then (⟨rest, true, rest = []⟩, 0)
      else if value < lowest then (⟨rest, true, rest = []⟩, lowest)
      else if highest < value then (⟨rest, true, rest = []⟩, highest)
      else (⟨rest, false, rest = []⟩, value)

/-- The texts from which numbers can be extracted until the end is noticed, with the numbers
that are extracted before that.  Every number that counts has something behind it. -/
inductive Reads (lowest highest : Int) : List Char → List Int → Prop where
  | last {blanks digits : List Char} (sign : Sign) (blank : ∀ c ∈ blanks, isSpace c = true)
      (decimal : ∀ c ∈ digits, isDigit c = true) :
      Reads lowest highest (blanks ++ (sign.text ++ digits)) []
  | next {blanks digits rest : List Char} {c : Char} {values : List Int} (sign : Sign)
      (blank : ∀ c ∈ blanks, isSpace c = true) (decimal : ∀ c ∈ digits, isDigit c = true)
      (number : digits ≠ [])
      (inRange : lowest ≤ sign.apply (magnitude digits) ∧
        sign.apply (magnitude digits) ≤ highest)
      (ended : ¬ isDigit c = true) (later : Reads lowest highest (c :: rest) values) :
      Reads lowest highest (blanks ++ (sign.text ++ (digits ++ c :: rest)))
        (sign.apply (magnitude digits) :: values)

variable {lowest highest : Int}

/-- What is skipped, and the sign that is found. -/
theorem takeSign_dropWhile {blanks digits : List Char} (sign : Sign)
    (blank : ∀ c ∈ blanks, isSpace c = true) (decimal : ∀ c ∈ digits, isDigit c = true)
    (something : sign.text ++ digits ≠ []) (rest : List Char) :
    (blanks ++ (sign.text ++ (digits ++ rest))).dropWhile isSpace =
        sign.text ++ (digits ++ rest) ∧
      takeSign (sign.text ++ (digits ++ rest)) = (sign, digits ++ rest) := by
  rw [List.dropWhile_append_of_pos blank]
  cases sign with
  | plus => exact ⟨rfl, rfl⟩
  | minus => exact ⟨rfl, rfl⟩
  | none =>
      cases digits with
      | nil => exact absurd rfl something
      | cons digit digits =>
          have first := decimal digit List.mem_cons_self
          refine ⟨List.dropWhile_cons_of_neg (not_isSpace_of_isDigit first), ?_⟩
          have notMinus : digit ≠ '-' := by
            rintro rfl
            cases first
          have notPlus : digit ≠ '+' := by
            rintro rfl
            cases first
          change (if digit = '-' then _ else if digit = '+' then _ else _) = _
          rw [if_neg notMinus, if_neg notPlus]
          rfl

theorem text_takeSign (text : List Char) :
    (takeSign text).1.text ++ (takeSign text).2 = text := by
  cases text with
  | nil => rfl
  | cons c rest =>
      rw [takeSign]
      split
      · rename_i same
        rw [same]
        rfl
      · split
        · rename_i same
          rw [same]
          rfl
        · rfl

theorem TextStream.extract_last {blanks digits : List Char} (sign : Sign)
    (blank : ∀ c ∈ blanks, isSpace c = true) (decimal : ∀ c ∈ digits, isDigit c = true)
    (v : Int) :
    ((TextStream.ofText (blanks ++ (sign.text ++ digits))).extract lowest highest v).1.eofbit =
      true := by
  by_cases nothing : sign.text ++ digits = []
  · have skipped : (blanks ++ (sign.text ++ digits)).dropWhile isSpace = [] := by
      rw [List.dropWhile_append_of_pos blank, nothing]
      rfl
    simp only [ofText, extract, skipped]
    rfl
  · have found := takeSign_dropWhile sign blank decimal nothing []
    simp only [List.append_nil] at found
    have ended : digits.dropWhile isDigit = [] := List.dropWhile_eq_nil_iff.mpr decimal
    simp only [ofText, extract, found.1, found.2, if_neg nothing, ended, Bool.or_self,
      Bool.false_eq_true, if_false, decide_true]
    split
    · rfl
    · split
      · rfl
      · split <;> rfl

theorem TextStream.extract_next {blanks digits rest : List Char} {c : Char} (sign : Sign)
    (blank : ∀ c ∈ blanks, isSpace c = true) (decimal : ∀ c ∈ digits, isDigit c = true)
    (number : digits ≠ [])
    (inRange : lowest ≤ sign.apply (magnitude digits) ∧
      sign.apply (magnitude digits) ≤ highest)
    (ended : ¬ isDigit c = true) (v : Int) :
    (TextStream.ofText (blanks ++ (sign.text ++ (digits ++ c :: rest)))).extract
        lowest highest v =
      (TextStream.ofText (c :: rest), sign.apply (magnitude digits)) := by
  have something : sign.text ++ digits ≠ [] := by
    intro nothing
    exact number (List.append_eq_nil_iff.mp nothing).2
  have found := takeSign_dropWhile sign blank decimal something (c :: rest)
  have nonempty : sign.text ++ (digits ++ c :: rest) ≠ [] := by
    intro nothing
    have last := (List.append_eq_nil_iff.mp nothing).2
    exact number (List.append_eq_nil_iff.mp last).1
  have taken : (digits ++ c :: rest).takeWhile isDigit = digits := by
    rw [List.takeWhile_append_of_pos decimal, List.takeWhile_cons_of_neg ended,
      List.append_nil]
  have left : (digits ++ c :: rest).dropWhile isDigit = c :: rest := by
    rw [List.dropWhile_append_of_pos decimal, List.dropWhile_cons_of_neg ended]
  simp only [ofText, extract, found.1, found.2, if_neg nonempty, taken, left, if_neg number,
    if_neg (Int.not_lt.mpr inRange.1), if_neg (Int.not_lt.mpr inRange.2), Bool.or_self,
    Bool.false_eq_true, if_false, List.cons_ne_nil, decide_false]

/-- What an extraction from a good stream comes to. -/
theorem TextStream.extract_cases (lowest highest : Int) (text : List Char) (v : Int) :
    (∃ blanks sign digits, (∀ c ∈ blanks, isSpace c = true) ∧
        (∀ c ∈ digits, isDigit c = true) ∧ text = blanks ++ (Sign.text sign ++ digits)) ∨
      (((TextStream.ofText text).extract lowest highest v).1.failbit = true ∧
        ((TextStream.ofText text).extract lowest highest v).1.eofbit = false) ∨
      ∃ blanks sign digits c rest, (∀ c ∈ blanks, isSpace c = true) ∧
        (∀ c ∈ digits, isDigit c = true) ∧ digits ≠ [] ∧
        (lowest ≤ Sign.apply sign (magnitude digits) ∧
          Sign.apply sign (magnitude digits) ≤ highest) ∧ ¬ isDigit c = true ∧
        text = blanks ++ (Sign.text sign ++ (digits ++ c :: rest)) := by
  have whole : text.takeWhile isSpace ++ text.dropWhile isSpace = text :=
    List.takeWhile_append_dropWhile
  have blank : ∀ c ∈ text.takeWhile isSpace, isSpace c = true :=
    fun c member => List.mem_takeWhile_imp member
  have signed := text_takeSign (text.dropWhile isSpace)
  generalize found : takeSign (text.dropWhile isSpace) = pair at signed
  obtain ⟨sign, later⟩ := pair
  dsimp only at signed
  have parts : later.takeWhile isDigit ++ later.dropWhile isDigit = later :=
    List.takeWhile_append_dropWhile
  have decimal : ∀ c ∈ later.takeWhile isDigit, isDigit c = true :=
    fun c member => List.mem_takeWhile_imp member
  cases left : later.dropWhile isDigit with
  | nil =>
      left
      refine ⟨_, sign, later.takeWhile isDigit, blank, decimal, ?_⟩
      rw [left, List.append_nil] at parts
      rw [parts, signed, whole]
  | cons c rest =>
      right
      have ended : ¬ isDigit c = true := by
        have something : later.dropWhile isDigit ≠ [] := by
          rw [left]
          exact List.cons_ne_nil c rest
        have first := List.head_dropWhile_not isDigit something
        simp only [left, List.head_cons] at first
        rw [first]
        exact Bool.false_ne_true
      have nonempty : text.dropWhile isSpace ≠ [] := by
        intro nothing
        rw [nothing] at found
        obtain ⟨_, rfl⟩ := Prod.mk.inj found
        cases left
      by_cases number : later.takeWhile isDigit = []
      · left
        simp only [ofText, extract, if_neg nonempty, found, number, left]
        exact ⟨rfl, rfl⟩
      · by_cases inRange : lowest ≤ sign.apply (magnitude (later.takeWhile isDigit)) ∧
            sign.apply (magnitude (later.takeWhile isDigit)) ≤ highest
        · right
          refine ⟨_, sign, later.takeWhile isDigit, c, rest, blank, decimal, number, inRange,
            ended, ?_⟩
          rw [← left, parts, signed, whole]
        · left
          simp only [ofText, extract, if_neg nonempty, found, if_neg number, left]
          by_cases low : sign.apply (magnitude (later.takeWhile isDigit)) < lowest
          · rw [if_pos low]
            exact ⟨rfl, rfl⟩
          · have high : highest < sign.apply (magnitude (later.takeWhile isDigit)) := by omega
            rw [if_neg low, if_pos high]
            exact ⟨rfl, rfl⟩

theorem TextStream.extract_failed {stream : TextStream} (failed : stream.failbit = true)
    (v : Int) :
    stream.extract lowest highest v = (stream, v) := by
  obtain ⟨rest, failbit, eofbit⟩ := stream
  obtain rfl : failbit = true := failed
  rfl

/-! ### Numbers between blanks -/

/-- A number as it is spelled. -/
structure Numeral (lowest highest : Int) where
  sign : Sign
  digits : List Char
  decimal : ∀ c ∈ digits, isDigit c = true
  number : digits ≠ []
  inRange : lowest ≤ sign.apply (magnitude digits) ∧ sign.apply (magnitude digits) ≤ highest

namespace Numeral

def text (numeral : Numeral lowest highest) : List Char := numeral.sign.text ++ numeral.digits

def value (numeral : Numeral lowest highest) : Int :=
  numeral.sign.apply (magnitude numeral.digits)

end Numeral

/-- Numbers with what stands behind each of them. -/
abbrev Fields (lowest highest : Int) := List (Numeral lowest highest × List Char)

namespace Fields

def text (fields : Fields lowest highest) : List Char :=
  fields.flatMap fun field => field.1.text ++ field.2

def values (fields : Fields lowest highest) : List Int := fields.map fun field => field.1.value

/-- Blanks stand between the numbers, and there can be some behind the last one. -/
structure Separated (fields : Fields lowest highest) : Prop where
  blank : ∀ field ∈ fields, ∀ c ∈ field.2, isSpace c = true
  apart : ∀ field ∈ fields.dropLast, field.2 ≠ []

/-- The last number has a blank behind it. -/
def Ended (fields : Fields lowest highest) : Prop :=
  ∀ last ∈ fields.getLast?, last.2 ≠ []

/-- The numbers with blanks behind them. -/
def ended (fields : Fields lowest highest) : List Int :=
  (fields.filter fun field => field.2 ≠ []).map fun field => field.1.value

theorem Separated.tail {field : Numeral lowest highest × List Char}
    {fields : Fields lowest highest} (separated : Separated (field :: fields)) :
    Separated fields where
  blank other member := separated.blank other (List.mem_cons_of_mem _ member)
  apart := by
    cases fields with
    | nil =>
        intro other member
        cases member
    | cons next fields =>
        intro other member
        exact separated.apart other (List.mem_cons_of_mem _ member)

/-- Only the last number can be one without a blank behind it. -/
theorem Separated.eq_nil {field : Numeral lowest highest × List Char}
    {fields : Fields lowest highest} (separated : Separated (field :: fields))
    (nothing : field.2 = []) : fields = [] := by
  cases fields with
  | nil => rfl
  | cons next fields => exact absurd nothing (separated.apart field List.mem_cons_self)

theorem reads_text {blanks : List Char} {fields : Fields lowest highest}
    (blank : ∀ c ∈ blanks, isSpace c = true) (separated : Separated fields) :
    Reads lowest highest (blanks ++ text fields) (ended fields) := by
  induction fields generalizing blanks with
  | nil => exact .last .none blank fun c member => absurd member List.not_mem_nil
  | cons field fields induction =>
      obtain ⟨numeral, behind⟩ := field
      cases behind with
      | nil =>
          obtain rfl := separated.eq_nil rfl
          have whole : text [(numeral, [])] = numeral.sign.text ++ numeral.digits := by
            simp [text, Numeral.text]
          rw [whole]
          exact .last numeral.sign blank numeral.decimal
      | cons c behind =>
          have behindBlank := separated.blank _ List.mem_cons_self
          have later := induction behindBlank separated.tail
          have whole : text ((numeral, c :: behind) :: fields) =
              numeral.sign.text ++ (numeral.digits ++ c :: (behind ++ text fields)) := by
            simp [text, Numeral.text]
          rw [whole]
          exact .next numeral.sign blank numeral.decimal numeral.number numeral.inRange
            (not_isDigit_of_isSpace (behindBlank c List.mem_cons_self)) later

theorem ended_eq_values {fields : Fields lowest highest} (separated : Separated fields)
    (blank : Ended fields) : ended fields = values fields := by
  rw [ended, List.filter_eq_self.mpr]
  · rfl
  · intro field member
    rw [decide_eq_true_eq]
    rcases List.eq_nil_or_concat' fields with rfl | ⟨front, last, rfl⟩
    · cases member
    · rcases List.mem_append.mp member with early | late
      · apply separated.apart
        rwa [List.dropLast_concat]
      · obtain rfl := List.mem_singleton.mp late
        exact blank field List.getLast?_concat

theorem ended_of_not {fields : Fields lowest highest} (separated : Separated fields)
    (touching : ¬ Ended fields) :
    ∃ last, values fields = ended fields ++ [last] := by
  rcases List.eq_nil_or_concat' fields with rfl | ⟨front, last, rfl⟩
  · refine absurd ?_ touching
    intro last found
    cases found
  · refine ⟨last.1.value, ?_⟩
    have nothing : last.2 = [] := by
      by_contra something
      apply touching
      intro other found
      rw [List.getLast?_concat] at found
      obtain rfl := Option.some.inj found
      exact something
    have all : front.filter (fun field => decide (field.2 ≠ [])) = front := by
      apply List.filter_eq_self.mpr
      intro field member
      rw [decide_eq_true_eq]
      apply separated.apart
      rwa [List.dropLast_concat]
    rw [ended, values, List.filter_append, all, List.filter_cons_of_neg (by simp [nothing])]
    simp

end Fields

end NumberStream
