import Quill.Unicode.Ranges

/-!
# White space

The characters of the property White_Space of Unicode 14: the space, the controls that move to
another column or line, and the separators.
-/

namespace Quill.Unicode

/-- The code points of the property White_Space of Unicode 14. -/
def spaceRanges : List (Nat × Nat) :=
  [(0x9, 0xD), (0x20, 0x20), (0x85, 0x85), (0xA0, 0xA0), (0x1680, 0x1680), (0x2000, 0x200A),
   (0x2028, 0x2029), (0x202F, 0x202F), (0x205F, 0x205F), (0x3000, 0x3000)]

/-- Whether a character is white space. -/
def isSpace (c : Char) : Bool := inRanges spaceRanges c.toNat

end Quill.Unicode
