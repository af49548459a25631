/-!
# Locations

A place in a text: its offset in characters, counted from zero, with the line and the column that
the offset falls on, both counted from one. A line feed ends its line; every other character takes
one column. Whoever makes a token without a text may say of it that it stands anywhere, so the three
numbers are integers and need not agree.
-/

namespace Quill

/-- A place in a text. -/
structure Location where
  /-- Characters before the place. -/
  offset : Int
  /-- Line of the place. -/
  line : Int
  /-- Column of the place. -/
  column : Int
  deriving DecidableEq

namespace Location

/-- Where every text begins. -/
def start : Location := ⟨0, 1, 1⟩

/-- The location of what was not read from any text. -/
def nowhere : Location := ⟨0, 0, 0⟩

/-- The place after one character. -/
def next (l : Location) (c : Char) : Location :=
  if c = '\n' then ⟨l.offset + 1, l.line + 1, 1⟩ else ⟨l.offset + 1, l.line, l.column + 1⟩

/-- The place after a run of characters. -/
def advance (l : Location) (text : List Char) : Location := text.foldl next l

@[simp] theorem advance_nil (l : Location) : l.advance [] = l := rfl

@[simp] theorem advance_cons (l : Location) (c : Char) (text : List Char) :
    l.advance (c :: text) = (l.next c).advance text := rfl

/-- To advance over two texts is to advance over one and then the other. -/
theorem advance_append (l : Location) (s t : List Char) :
    l.advance (s ++ t) = (l.advance s).advance t := List.foldl_append

@[simp] theorem offset_next (l : Location) (c : Char) : (l.next c).offset = l.offset + 1 := by
  unfold next; split <;> rfl

/-- Every character moves the offset by one. -/
@[simp] theorem offset_advance (l : Location) (text : List Char) :
    (l.advance text).offset = l.offset + text.length := by
  induction text generalizing l with
  | nil => simp
  | cons c text ih => rw [advance_cons, ih, offset_next, List.length_cons]; omega

end Location

end Quill
