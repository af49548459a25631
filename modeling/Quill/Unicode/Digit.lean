/-!
# Decimal digits

The characters of the general category Nd of Unicode 14. They come in runs of ten, from a digit zero
to a digit nine, one run or more for each script. A digit of any script can be written as the ASCII
digit of the same value; what is ASCII already stays as it is (`asciiDigit_of_lt`).
-/

namespace Quill.Unicode

/-- The code points of the digits zero. -/
def zeros : List Nat :=
  [0x30, 0x660, 0x6F0, 0x7C0, 0x966, 0x9E6, 0xA66, 0xAE6, 0xB66, 0xBE6, 0xC66, 0xCE6, 0xD66, 0xDE6,
   0xE50, 0xED0, 0xF20, 0x1040, 0x1090, 0x17E0, 0x1810, 0x1946, 0x19D0, 0x1A80, 0x1A90, 0x1B50,
   0x1BB0, 0x1C40, 0x1C50, 0xA620, 0xA8D0, 0xA900, 0xA9D0, 0xA9F0, 0xAA50, 0xABF0, 0xFF10, 0x104A0,
   0x10D30, 0x11066, 0x110F0, 0x11136, 0x111D0, 0x112F0, 0x11450, 0x114D0, 0x11650, 0x116C0,
   0x11730, 0x118E0, 0x11950, 0x11C50, 0x11D50, 0x11DA0, 0x16A60, 0x16AC0, 0x16B50, 0x1D7CE,
   0x1D7D8, 0x1D7E2, 0x1D7EC, 0x1D7F6, 0x1E140, 0x1E2F0, 0x1E950, 0x1FBF0]

/-- The value of a decimal digit of any script. -/
def decimalDigit? (c : Char) : Option Nat :=
  (zeros.find? fun first => first ≤ c.toNat && c.toNat ≤ first + 9).map (c.toNat - ·)

/-- The ASCII digit of the same value, or any other character as it is. -/
def asciiDigit (c : Char) : Char :=
  match decimalDigit? c with
  | some d => Char.ofNat (48 + d)
  | none => c

/-- All digits below the end of ASCII are ASCII digits. -/
theorem eq_of_mem_zeros {first : Nat} (h : first ∈ zeros) (lt : first < 128) : first = 48 := by
  have all : ∀ n ∈ zeros, n < 128 → n = 48 := by decide
  exact all first h lt

/-- A character of ASCII is left as it is. -/
theorem asciiDigit_of_lt {c : Char} (h : c.toNat < 128) : asciiDigit c = c := by
  unfold asciiDigit decimalDigit?
  cases found : zeros.find? fun first => first ≤ c.toNat && c.toNat ≤ first + 9 with
  | none => rfl
  | some first =>
    have bounds := List.find?_some found
    simp only [Bool.and_eq_true, decide_eq_true_eq] at bounds
    obtain rfl := eq_of_mem_zeros (List.mem_of_find?_eq_some found) (by omega)
    show Char.ofNat (48 + (c.toNat - 48)) = c
    rw [Nat.add_sub_cancel' bounds.1, Char.ofNat_toNat]

end Quill.Unicode
