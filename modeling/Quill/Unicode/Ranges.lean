/-!
# Tables of code point ranges

A property of characters is stored as the ascending list of the closed ranges of code points that
have it. `inRanges` looks a code point up and stops at the first range that begins above it, so a
character near the front of a table is decided at once.
-/

namespace Quill.Unicode

/-- Whether a code point lies in one of the closed ranges of an ascending table. -/
def inRanges : List (Nat × Nat) → Nat → Bool
  | [], _ => false
  | (first, last) :: rest, n => if n < first then false else n ≤ last || inRanges rest n

end Quill.Unicode
