import Quill.Number.Magnitude

/-!
# Shortest decimal text of a magnitude

A magnitude is written with the fewest decimal digits that read back as the same magnitude, and of
the texts with so few digits the one nearest to the exact value. `Decimal.shortest` looks for them
on ever finer decimal grids, of one significant digit, of two, and so on: on each it tries the two
neighbours of the value. The first grid with a neighbour that reads back decides.

`Decimal.layout` then places the decimal point: numbers from one ten-thousandth to below ten to the
sixteenth are written positionally with at least one decimal, others with an exponent.
-/

namespace Quill

/-- The number `digits` times ten to the power of `exponent`. -/
structure Decimal where
  /-- The significant digits, as one number. -/
  digits : Nat
  /-- Where the last of them stands. -/
  exponent : Int
  deriving DecidableEq

namespace Decimal

/-- The magnitude nearest to a decimal number. -/
def toMagnitude (d : Decimal) : Magnitude :=
  if 0 ≤ d.exponent then .ofRatio (d.digits * Nat.pow 10 d.exponent.toNat) 1
  else .ofRatio d.digits (Nat.pow 10 (-d.exponent).toNat)

/-- The decimal digits of a natural number, the most significant one first. -/
def digitsOf (n : Nat) : List Char := Nat.toDigits 10 n

/-- The power of ten of the first significant digit of so many units, if there is one. The value is
first taken up to a power of ten beyond the least positive double. -/
def leadingExponent (units : Nat) : Int :=
  (digitsOf (units * Nat.pow 10 400 / Magnitude.oneUnits)).length - 401

/-- The quotient that counts how often ten to the power of `exponent` goes into so many units. -/
def gridRatio (units : Nat) (exponent : Int) : Nat × Nat :=
  if 0 ≤ exponent then (units, Magnitude.oneUnits * Nat.pow 10 exponent.toNat)
  else (units * Nat.pow 10 (-exponent).toNat, Magnitude.oneUnits)

/-- Whether a decimal number reads back as so many units. -/
def readsAs (d : Decimal) (units : Nat) : Bool :=
  match d.toMagnitude with
  | .finite u _ => u == units
  | .infinite => false

/-- The neighbour of the value on the grid of `precision` significant digits that reads back as it:
of two the nearer, of two equally near the even one. -/
def onGrid? (units precision : Nat) : Option Decimal :=
  let exponent := leadingExponent units - precision + 1
  let (n, d) := gridRatio units exponent
  let below : Decimal := ⟨n / d, exponent⟩
  let above : Decimal := ⟨n / d + 1, exponent⟩
  let upward := d < 2 * (n % d) ∨ d = 2 * (n % d) ∧ n / d % 2 = 1
  match below.readsAs units, above.readsAs units with
  | true, true => some (if upward then above else below)
  | true, false => some below
  | false, true => some above
  | false, false => none

/-- All the digits of so many units. -/
def exact (units : Nat) : Decimal := ⟨units * Nat.pow 5 leastExponent, -leastExponent⟩

/-- The shortest decimal number that reads back as so many units. Seventeen significant digits tell
any two magnitudes apart. -/
def shortest (units : Nat) : Decimal :=
  ((List.range 17).findSome? fun i => onGrid? units (i + 1)).getD (exact units)

/-- Significant digits without trailing zeros. -/
def significant (digits : Nat) : List Char :=
  ((digitsOf digits).reverse.dropWhile (· = '0')).reverse

/-- The exponent part: a sign always, and at least two digits. -/
def exponentText (e : Int) : List Char :=
  let digits := digitsOf e.natAbs
  ['e', if e < 0 then '-' else '+'] ++ List.replicate (2 - digits.length) '0' ++ digits

/-- Places the decimal point among significant digits of which the first stands for ten to the
power of `leading`. -/
def layout (digits : List Char) (leading : Int) : List Char :=
  if leading < -4 ∨ 16 ≤ leading then
    let fraction := if digits.length ≤ 1 then [] else '.' :: digits.drop 1
    digits.take 1 ++ fraction ++ exponentText leading
  else if leading < 0 then
    ['0', '.'] ++ List.replicate (-leading - 1).toNat '0' ++ digits
  else
    let whole := leading.toNat + 1
    let fraction := if digits.length ≤ whole then ['0'] else digits.drop whole
    digits.take whole ++ List.replicate (whole - digits.length) '0' ++ '.' :: fraction

/-- The text of a decimal number. -/
def text (d : Decimal) : List Char :=
  if d.digits = 0 then ['0', '.', '0']
  else layout (significant d.digits) (d.exponent + (digitsOf d.digits).length - 1)

end Decimal

/-- The shortest text that reads back as a magnitude. -/
def Magnitude.text : Magnitude → List Char
  | .finite units _ => (Decimal.shortest units).text
  | .infinite => ['i', 'n', 'f']

end Quill
