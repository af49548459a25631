import Quill.Number.Decimal

/-!
# Binary64 numbers

The doubles that tokens and trees can hold: a magnitude with a sign, or the NaN. `same` is numeric
equality, in which the two zeros agree and the NaN agrees with nothing. `text` writes a number.
-/

namespace Quill

/-- A double. -/
inductive Binary64 where
  /-- A magnitude with its sign. -/
  | signed (negative : Bool) (magnitude : Magnitude)
  /-- Not a number. -/
  | nan
  deriving DecidableEq

namespace Binary64

/-- A double that is not negative. -/
def ofMagnitude (m : Magnitude) : Binary64 := .signed false m

/-- The double nearest to an integer. -/
def ofInt (n : Int) : Binary64 := .signed (n < 0) (.ofNat n.natAbs)

/-- The number that a truth value counts as. -/
def ofBool (b : Bool) : Binary64 := .ofMagnitude (if b then .one else .zero)

/-- Numeric equality. -/
def same : Binary64 → Binary64 → Bool
  | .signed s m, .signed t n => m = n ∧ (s = t ∨ m = .zero)
  | _, _ => false

/-- The shortest text that reads back as the number. -/
def text : Binary64 → String
  | .signed false m => String.ofList m.text
  | .signed true m => String.ofList ('-' :: m.text)
  | .nan => "nan"

/-- The exact sum, rounded. Numbers that cancel out give the zero that is not negative. -/
def add : Binary64 → Binary64 → Binary64
  | .signed s a, .signed t b =>
    if s = t then .signed s (a + b)
    else
      match a, b with
      | .finite m _, .finite n _ =>
        if n < m then .signed s (.ofUnits (m - n) 1)
        else if m < n then .signed t (.ofUnits (n - m) 1)
        else .ofMagnitude .zero
      | .infinite, .finite _ _ => .signed s .infinite
      | .finite _ _, .infinite => .signed t .infinite
      | .infinite, .infinite => .nan
  | _, _ => .nan

instance : Add Binary64 := ⟨add⟩

end Binary64

end Quill
