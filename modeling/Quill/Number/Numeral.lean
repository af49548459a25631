import Quill.Number.Decimal

/-!
# Numerals

A numeral is written in a radix from 2 to 36, with the letters of either case as the digits from
ten on, and may hold one point. `Radix.read` gives the magnitude it denotes.

In radix ten the whole text is rounded once. In any other radix the integer part is rounded first,
and each digit after the point then adds its own rounded quotient, in order; an integer part beyond
the greatest finite double is refused there. So is one of more than `Radix.mostDigits` digits, zeros
in front included, unless the base is a power of two (`Radix.refuses`).
-/

namespace Quill

/-- The base in which numerals are read. -/
structure Radix where
  /-- Number of different digits. -/
  base : Nat
  two_le_base : 2 ≤ base
  base_le : base ≤ 36
  deriving DecidableEq

/-- Why a text denotes no number. -/
inductive NumeralError where
  /-- It holds nothing but a point, or more than one point. -/
  | malformed
  /-- Its integer part has so many digits that it is not converted. -/
  | tooManyDigits (digits : Nat)
  /-- Its integer part is beyond the greatest finite double. -/
  | overflow
  /-- It is no decimal number. -/
  | notANumber
  /-- A part of it is no integer. -/
  | notAnInteger (part : List Char)
  deriving DecidableEq

/-- The value of an ASCII digit or letter as a digit. -/
def digitValue? (c : Char) : Option Nat :=
  if '0' ≤ c ∧ c ≤ '9' then some (c.toNat - 48)
  else if 'a' ≤ c ∧ c ≤ 'z' then some (c.toNat - 87)
  else if 'A' ≤ c ∧ c ≤ 'Z' then some (c.toNat - 55)
  else none

/-- The characters with a value are the ASCII digits and letters. -/
theorem toNat_of_digitValue? {c : Char} {d : Nat} (h : digitValue? c = some d) :
    48 ≤ c.toNat ∧ c.toNat ≤ 57 ∨ 65 ≤ c.toNat ∧ c.toNat ≤ 90 ∨
      97 ≤ c.toNat ∧ c.toNat ≤ 122 := by
  unfold digitValue? at h
  split at h
  · rename_i hc
    exact .inl hc
  split at h
  · rename_i hc
    exact .inr (.inr hc)
  split at h
  · rename_i hc
    exact .inr (.inl hc)
  · cases h

namespace Radix

/-- The least base. -/
def least : Nat := 2

/-- The greatest base, for which the ASCII letters suffice. -/
def greatest : Nat := 36

/-- The radix that numerals are read in unless another one is set. -/
def decimal : Radix := ⟨10, by decide, by decide⟩

/-- The radix of a given base, if the base is in range. -/
def ofInt? (base : Int) : Option Radix :=
  if h : 2 ≤ base ∧ base ≤ 36 then some ⟨base.toNat, by omega, by omega⟩ else none

/-- The most digits of an integer part that is converted in a radix whose base is neither ten nor a
power of two. -/
def mostDigits : Nat := 4300

/-- Whether the base is a power of two. -/
def isBinary (r : Radix) : Bool := Nat.pow 2 r.base.log2 = r.base

/-- Whether an integer part of so many digits is not converted in the radix. In radix ten there is
no integer part to convert. -/
def refuses (r : Radix) (digits : Nat) : Bool :=
  r ≠ decimal && !r.isBinary && mostDigits < digits

/-- No digits at all are not too many. -/
theorem refuses_zero (r : Radix) : r.refuses 0 = false := Bool.and_false _

/-- In radix ten no number of digits is too many. -/
theorem ne_decimal_of_refuses {r : Radix} {digits : Nat} (h : r.refuses digits = true) :
    r ≠ decimal := by
  rintro rfl
  cases h

/-- Whether a character is a digit in the radix. -/
def isDigit (r : Radix) (c : Char) : Bool :=
  match digitValue? c with
  | some d => d < r.base
  | none => false

/-- Whether a character can stand in a numeral. -/
def isNumeral (r : Radix) (c : Char) : Bool := c = '.' || r.isDigit c

/-- A digit can stand in a numeral. -/
theorem isNumeral_of_isDigit {r : Radix} {c : Char} (h : r.isDigit c = true) :
    r.isNumeral c = true := by
  rw [isNumeral, h, Bool.or_true]

/-- The natural number that digits denote, written in `base`. -/
def valueIn (base : Nat) (digits : List Char) : Nat :=
  digits.foldl (fun n c => n * base + (digitValue? c).getD 0) 0

/-- The natural number that digits denote in the radix. -/
def value (r : Radix) (digits : List Char) : Nat := valueIn r.base digits

/-- The natural number that a text denotes, if it holds digits and nothing else. -/
def nat? (r : Radix) (text : List Char) : Option Nat :=
  if text ≠ [] ∧ text.all r.isDigit then some (r.value text) else none

/-- A digit of the radix has a value below the base. -/
theorem exists_digitValue? {r : Radix} {c : Char} (h : r.isDigit c) :
    ∃ d, digitValue? c = some d ∧ d < r.base := by
  unfold isDigit at h
  split at h
  · exact ⟨_, ‹_›, by simpa using h⟩
  · cases h

/-- A point is no digit. -/
theorem ne_point_of_isDigit {r : Radix} {c : Char} (h : r.isDigit c = true) : c ≠ '.' := by
  rintro rfl
  obtain ⟨d, hd, -⟩ := exists_digitValue? h
  rw [show digitValue? '.' = none from by decide] at hd
  cases hd

/-- Digits alone are read as the natural number that they denote. -/
theorem nat?_of_digits {r : Radix} {text : List Char} (h : ∀ c ∈ text, r.isDigit c)
    (ne : text ≠ []) : r.nat? text = some (r.value text) :=
  if_pos ⟨ne, List.all_eq_true.2 h⟩

/-- Whether a text counts as a single digit: it is not empty, and read in the greatest radix its
characters stand for a number below the base. -/
def isDigitText (r : Radix) (text : List Char) : Bool :=
  text ≠ [] && text.all (fun c => (digitValue? c).isSome) && valueIn greatest text < r.base

/-- Adds the digits after the point, the first of which counts in parts of `scale * base`. -/
def addFraction (r : Radix) : Magnitude → (scale : Nat) → List Char → Magnitude
  | m, _, [] => m
  | m, scale, c :: rest =>
    let scale := scale * r.base
    r.addFraction (m + .ofRatio ((digitValue? c).getD 0) scale) scale rest

/-- What stands before the first point of a text, and what after it. -/
def splitPoint (text : List Char) : List Char × List Char :=
  (text.takeWhile (· ≠ '.'), (text.dropWhile (· ≠ '.')).drop 1)

/-- Digits are the whole part of a numeral, with a point after them or without. -/
theorem splitPoint_of_digits {r : Radix} {whole : List Char}
    (h : ∀ c ∈ whole, r.isDigit c = true) (fraction : List Char) :
    splitPoint whole = (whole, []) ∧ splitPoint (whole ++ '.' :: fraction) = (whole, fraction) := by
  have hp : ∀ c ∈ whole, decide (c ≠ '.') = true :=
    fun c hc => decide_eq_true (ne_point_of_isDigit (h c hc))
  constructor
  · have take := @List.takeWhile_append_of_pos _ _ whole [] hp
    have drop := @List.dropWhile_append_of_pos _ _ whole [] hp
    rw [List.append_nil] at take drop
    simp only [splitPoint, take, drop]
    simp
  · simp only [splitPoint, List.takeWhile_append_of_pos hp, List.dropWhile_append_of_pos hp]
    simp

/-- The magnitude that a numeral denotes. -/
def read (r : Radix) (text : List Char) : Except NumeralError Magnitude :=
  let (whole, fraction) := splitPoint text
  if (whole = [] ∧ fraction = []) ∨ ¬(whole ++ fraction).all r.isDigit then
    .error .malformed
  else if r = decimal then
    .ok (Decimal.toMagnitude ⟨r.value (whole ++ fraction), -fraction.length⟩)
  else if r.refuses whole.length then
    .error (.tooManyDigits whole.length)
  else
    let m := Magnitude.ofNat (r.value whole)
    if m.isInfinite then .error .overflow else .ok (r.addFraction m 1 fraction)

end Radix

end Quill
