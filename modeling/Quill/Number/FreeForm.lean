import Quill.Number.Binary64
import Quill.Number.Numeral
import Quill.Unicode.Digit
import Quill.Unicode.Space

/-!
# Numbers in free form

A text that is not scanned but handed in to be read as a number may be written more freely than a
numeral. White space may stand around it and a sign before it, digits of any script count as the
ASCII digits of the same values, and single low lines may stand between digits.

`Binary64.ofText?` reads a decimal number of this form, which may have an exponent or be the name of
an infinity or of the NaN; `Radix.integer?` reads an integer, before whose digits the mark of its
radix may stand. Digits are counted before anything else is looked at, so that too many of them are
refused whatever comes after them (`Radix.excess?`). `Radix.readText` reads any text that a lexer is
given as a number. A numeral it reads as `Radix.read` does (`Radix.readText_eq_read`).
-/

namespace Quill

open Unicode

namespace FreeForm

/-- The text without the white space around it. -/
def trim (text : List Char) : List Char :=
  ((text.dropWhile isSpace).reverse.dropWhile isSpace).reverse

/-- The text in ASCII digits and without the white space around it. -/
def plain (text : List Char) : List Char := trim (text.map asciiDigit)

/-- Whether a minus sign stands in front, and the text after the sign. -/
def splitSign : List Char → Bool × List Char
  | '-' :: rest => (true, rest)
  | '+' :: rest => (false, rest)
  | text => (false, text)

/-- The text without the low lines between digits, if low lines stand nowhere else. -/
def ungroup (isDigit : Char → Bool) : List Char → Option (List Char)
  | [] => some []
  | '_' :: _ => none
  | c :: '_' :: d :: rest =>
    if isDigit c && isDigit d then (ungroup isDigit (d :: rest)).map (c :: ·) else none
  | c :: rest => (ungroup isDigit rest).map (c :: ·)

/-- Beyond so many places before or after the point every decimal number but zero is infinite or
zero as a double. -/
def farthestPlace : Nat := 400

/-- The exponent of the last of `digits` digits, cut off where the number is infinite or zero in any
case. -/
def nearExponent (digits : Nat) (exponent : Int) : Int :=
  max (-(farthestPlace + digits)) (min farthestPlace exponent)

/-- An integer in decimal digits, after an optional sign. -/
def exponent? (text : List Char) : Option Int :=
  let (negative, digits) := splitSign text
  (Radix.decimal.nat? digits).map fun n => if negative then -n else n

/-- Decimal digits with an optional point and an optional exponent. -/
def decimal? (text : List Char) : Option Decimal := do
  let exponent ← match text.dropWhile (· ≠ 'e') with
    | [] => some 0
    | _ :: digits => exponent? digits
  let (whole, fraction) := Radix.splitPoint (text.takeWhile (· ≠ 'e'))
  let n ← Radix.decimal.nat? (whole ++ fraction)
  some ⟨n, nearExponent (whole ++ fraction).length (exponent - fraction.length)⟩

/-- The names of infinity. -/
def infinityWords : List (List Char) :=
  [['i', 'n', 'f'], ['i', 'n', 'f', 'i', 'n', 'i', 't', 'y']]

/-- The names of the NaN. -/
def nanWords : List (List Char) := [['n', 'a', 'n']]

end FreeForm

open FreeForm

/-- Reads the characters of a decimal number in free form. Letters may be of either case. -/
def Binary64.ofChars? (text : List Char) : Option Binary64 := do
  let text ← ungroup Radix.decimal.isDigit (plain text)
  let (negative, text) := splitSign (text.map Char.toLower)
  if text ∈ infinityWords then some (.signed negative .infinite)
  else if text ∈ nanWords then some .nan
  else (decimal? text).map fun d => .signed negative d.toMagnitude

/-- Reads the text of a number. -/
def Binary64.ofText? (text : String) : Option Binary64 := ofChars? text.toList

namespace Radix

/-- The letters that mark a numeral as one of the radix, after a zero. -/
def marks (r : Radix) : List Char :=
  if r.base = 2 then ['b', 'B']
  else if r.base = 8 then ['o', 'O']
  else if r.base = 16 then ['x', 'X']
  else []

/-- The text without the mark of the radix, after which one low line may stand. -/
def dropMark (r : Radix) : List Char → List Char
  | '0' :: mark :: rest =>
    if mark ∈ r.marks then
      match rest with
      | '_' :: digits => digits
      | digits => digits
    else '0' :: mark :: rest
  | text => text

/-- Reads an integer in free form. -/
def integer? (r : Radix) (text : List Char) : Option Int := do
  let (negative, text) := splitSign (plain text)
  let digits ← ungroup r.isDigit (r.dropMark text)
  let n ← r.nat? digits
  some (if negative then -n else n)

/-- The number of the digits that a text begins with after its sign, unless a low line stands among
them where none may stand. -/
def leadingDigits? (r : Radix) (text : List Char) : Option Nat :=
  let (_, text) := splitSign (plain text)
  (ungroup r.isDigit (text.takeWhile fun c => c = '_' || r.isDigit c)).map List.length

/-- The number of the digits that a text begins with, if it is refused for them. -/
def excess? (r : Radix) (text : List Char) : Option Nat := (r.leadingDigits? text).filter r.refuses

/-- Adds the digits of any script after the point, the first of which counts in parts of
`scale * base`. -/
def addText (r : Radix) :
    Binary64 → (scale : Nat) → List Char → Except NumeralError Binary64
  | x, _, [] => .ok x
  | x, scale, c :: rest =>
    match r.nat? [asciiDigit c] with
    | some d =>
      let scale := scale * r.base
      r.addText (x + .ofMagnitude (.ofRatio d scale)) scale rest
    | none => .error (.notAnInteger [c])

/-- The double nearest to an integer part, unless that is infinite. -/
def nearestFinite (n : Int) : Except NumeralError Binary64 :=
  if (Magnitude.ofNat n.natAbs).isInfinite then .error .overflow else .ok (.ofInt n)

/-- The integer part of a text as a double; it is zero if nothing stands there. -/
def readWhole (r : Radix) (whole : List Char) : Except NumeralError Binary64 :=
  if whole = [] then .ok (.ofMagnitude .zero)
  else
    match r.excess? whole with
    | some digits => .error (.tooManyDigits digits)
    | none =>
      match r.integer? whole with
      | none => .error (.notAnInteger whole)
      | some n => nearestFinite n

/-- The number that a text denotes in the radix: in radix ten a decimal number in free form, in any
other an integer in free form with digits after it. -/
def readText (r : Radix) (text : List Char) : Except NumeralError Binary64 :=
  let (whole, fraction) := splitPoint text
  if '.' ∈ fraction ∨ (whole = [] ∧ fraction = []) then .error .malformed
  else if r = decimal then
    match Binary64.ofChars? text with
    | some x => .ok x
    | none => .error .notANumber
  else
    match r.readWhole whole with
    | .ok x => r.addText x 1 fraction
    | .error e => .error e

end Radix

end Quill
