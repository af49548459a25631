/-!
# Magnitudes of binary64 numbers

The numbers of the language are IEEE 754 doubles. What a numeral can denote is a magnitude: a
finite double that is not negative, or infinity. A finite magnitude is stored exactly, as the
number of times that it holds the least positive double, two to the power of minus 1074.

`Magnitude.ofRatio` rounds a quotient of natural numbers to the nearest magnitude, a tie to the
one whose last binary digit is even, and everything else here goes through it. The rounding keeps
at most 53 binary digits (`divRound_le`), so what it gives is representable (`representable_round`).
-/

namespace Quill

/-- Binary digits that a double can hold. -/
def precision : Nat := 53

/-- The least positive double is two to the power of minus this. -/
def leastExponent : Nat := 1074

/-- Every finite double is below two to the power of this. -/
def overflowExponent : Nat := 1024

/-- The units in the least power of two that is beyond every finite double. -/
def overflowUnits : Nat := Nat.pow 2 (leastExponent + overflowExponent)

/-- Zero units do not overflow. -/
theorem overflowUnits_pos : 0 < overflowUnits := by
  unfold overflowUnits
  generalize leastExponent + overflowExponent = n
  exact Nat.two_pow_pos n

/-- A number of units that some finite double holds: below the overflow bound, and of at most 53
binary digits but for trailing zeros. -/
def Representable (units : Nat) : Prop :=
  units < overflowUnits ∧ ∃ m e, m < Nat.pow 2 precision ∧ units = m * Nat.pow 2 e

/-- Zero is a double. -/
theorem representable_zero : Representable 0 :=
  ⟨overflowUnits_pos, 0, 0, Nat.two_pow_pos _, rfl⟩

/-- The integer nearest to the quotient `n / d`, a tie going to the even one. -/
def divRound (n d : Nat) : Nat :=
  if 2 * (n % d) < d then n / d
  else if d < 2 * (n % d) then n / d + 1
  else n / d + n / d % 2

/-- Binary digits of the quotient `n / d` beyond those that a double can hold. -/
def surplusBits (n d : Nat) : Nat := Nat.log2 (n / d) + 1 - precision

/-- The quotient `n / d` rounded to the binary digits that a double can hold. -/
def roundRatio (n d : Nat) : Nat :=
  divRound n (d * Nat.pow 2 (surplusBits n d)) * Nat.pow 2 (surplusBits n d)

/-- A quotient below an integer rounds at most to it. -/
theorem divRound_le_of_div_lt {n d q : Nat} (h : n / d < q) : divRound n d ≤ q := by
  unfold divRound
  split
  · omega
  · split
    · omega
    · have := Nat.mod_lt (n / d) (show 0 < 2 by decide)
      omega

/-- The rounded quotient has as many binary digits as a double can hold, or is the next power of
two. -/
theorem divRound_le (n d : Nat) :
    divRound n (d * Nat.pow 2 (surplusBits n d)) ≤ Nat.pow 2 precision := by
  apply divRound_le_of_div_lt
  rw [← Nat.div_div_eq_div_mul]
  apply Nat.div_lt_of_lt_mul
  have bits : Nat.log2 (n / d) + 1 ≤ surplusBits n d + precision := by
    unfold surplusBits
    omega
  have split : Nat.pow 2 (surplusBits n d + precision) =
      Nat.pow 2 (surplusBits n d) * Nat.pow 2 precision := Nat.pow_add ..
  rw [← split]
  exact Nat.lt_of_lt_of_le Nat.lt_log2_self (Nat.pow_le_pow_right (by decide) bits)

/-- What rounding gives below the overflow bound is the units of a double. -/
theorem representable_round {n d : Nat} (h : roundRatio n d < overflowUnits) :
    Representable (roundRatio n d) := by
  refine ⟨h, ?_⟩
  rcases Nat.lt_or_eq_of_le (divRound_le n d) with below | top
  · exact ⟨_, _, below, rfl⟩
  · refine ⟨1, precision + surplusBits n d, by decide, ?_⟩
    rw [roundRatio, top, Nat.one_mul]
    exact (Nat.pow_add ..).symm

/-- A double that is not negative and not a NaN. -/
inductive Magnitude where
  /-- So many times the least positive double. -/
  | finite (units : Nat) (representable : Representable units)
  /-- Above every finite double. -/
  | infinite
  deriving DecidableEq

namespace Magnitude

/-- Whether a magnitude is above every finite double. -/
def isInfinite : Magnitude → Bool
  | .finite _ _ => false
  | .infinite => true

/-- The units in the number one. -/
def oneUnits : Nat := Nat.pow 2 leastExponent

/-- Zero. -/
def zero : Magnitude := .finite 0 representable_zero

/-- The units of the number one do not overflow. -/
theorem oneUnits_lt_overflowUnits : oneUnits < overflowUnits := by
  unfold oneUnits overflowUnits
  have h : leastExponent < leastExponent + overflowExponent := by decide
  generalize leastExponent + overflowExponent = n at h
  generalize leastExponent = m at h
  exact Nat.pow_lt_pow_right (by decide) h

/-- One is a double. -/
theorem representable_one : Representable oneUnits := by
  refine ⟨oneUnits_lt_overflowUnits, 1, leastExponent, by decide, ?_⟩
  unfold oneUnits
  generalize Nat.pow 2 leastExponent = n
  exact (Nat.one_mul n).symm

/-- One. -/
def one : Magnitude := .finite oneUnits representable_one

/-- The magnitude nearest to `n / d` units; infinity if that is two to the power of 1024 or more. -/
def ofUnits (n d : Nat) : Magnitude :=
  if h : roundRatio n d < overflowUnits then .finite (roundRatio n d) (representable_round h)
  else .infinite

/-- The magnitude nearest to the quotient `n / d`. -/
def ofRatio (n d : Nat) : Magnitude := ofUnits (n * oneUnits) d

/-- The magnitude nearest to a natural number. -/
def ofNat (n : Nat) : Magnitude := ofRatio n 1

/-- The natural number zero is rounded to zero. -/
theorem ofNat_zero : ofNat 0 = zero := by
  have h : roundRatio (0 * oneUnits) 1 = 0 := by rw [Nat.zero_mul]; decide
  unfold ofNat ofRatio ofUnits
  rw [dif_pos (by rw [h]; exact overflowUnits_pos)]
  simp only [h]
  rfl

/-- The exact sum, rounded. -/
def add : Magnitude → Magnitude → Magnitude
  | .finite a _, .finite b _ => ofUnits (a + b) 1
  | _, _ => .infinite

instance : Add Magnitude := ⟨add⟩

end Magnitude

end Quill
