import Quill.Fault
import Quill.Source.Location

/-!
# Cursors

A cursor is a place in a source text. It reads the character at its place and moves on, looks at
characters around it without moving, and can be put anywhere. An offset that was set by hand may lie
beyond the end of the text, where nothing is left to read, and a line and a column that were set by
hand are counted on from as they are.
-/

namespace Quill

/-- A place in a source text. -/
structure Cursor where
  /-- The whole text. -/
  source : List Char
  /-- Characters before the place. -/
  offset : Nat
  /-- Line of the place. -/
  line : Int
  /-- Column of the place. -/
  column : Int
  deriving DecidableEq

namespace Cursor

/-- The beginning of a text. -/
def ofText (source : List Char) : Cursor := ⟨source, 0, 1, 1⟩

/-- The place as a location. -/
def location (c : Cursor) : Location := ⟨c.offset, c.line, c.column⟩

/-- The characters not yet read. -/
def rest (c : Cursor) : List Char := c.source.drop c.offset

/-- Whether every character has been read. -/
def atEnd (c : Cursor) : Bool := c.source.length ≤ c.offset

/-- The failure to read beyond the end. -/
def pastEnd (c : Cursor) : Fault :=
  .atPosition (.lexical "Attempted to read past end of source" .eof none) c.offset

/-- The cursor after a run of characters. -/
def skip (c : Cursor) (text : List Char) : Cursor :=
  let after := c.location.advance text
  { c with offset := c.offset + text.length, line := after.line, column := after.column }

/-- Reads a character. -/
def next (c : Cursor) : Except Fault (Char × Cursor) :=
  match c.rest with
  | [] => .error c.pastEnd
  | char :: _ => .ok (char, c.skip [char])

/-- The character so many places further on, or back if the number is negative. -/
def peek? (c : Cursor) (distance : Int) : Option Char :=
  let index := c.offset + distance
  if index < 0 then none else c.source[index.toNat]?

/-- The cursor at another place in its text. -/
def restore (c : Cursor) (offset : Nat) (line column : Int) : Cursor :=
  { c with offset, line, column }

/-- To skip leaves the text. -/
@[simp] theorem source_skip (c : Cursor) (text : List Char) : (c.skip text).source = c.source :=
  rfl

/-- To skip a text counts its characters. -/
@[simp] theorem offset_skip (c : Cursor) (text : List Char) :
    (c.skip text).offset = c.offset + text.length :=
  rfl

/-- The location moves on as the cursor does. -/
@[simp] theorem location_skip (c : Cursor) (text : List Char) :
    (c.skip text).location = c.location.advance text := by
  have h := Location.offset_advance c.location text
  simp only [skip, location] at h ⊢
  rw [Int.natCast_add, ← h]

/-- As many characters remain as do not stand before the cursor. -/
theorem length_rest (c : Cursor) : c.rest.length = c.source.length - c.offset :=
  List.length_drop ..

/-- Skipping characters leaves so many fewer. -/
theorem length_rest_skip (c : Cursor) (text : List Char) :
    (c.skip text).rest.length = c.rest.length - text.length := by
  simp only [length_rest, source_skip, offset_skip]
  omega

/-- Skipping characters drops so many of what is left. -/
theorem rest_skip_eq_drop (c : Cursor) (text : List Char) :
    (c.skip text).rest = c.rest.drop text.length := by
  simp only [rest, source_skip, offset_skip, List.drop_drop]

/-- Skipping what stands next leaves what stands after it. -/
theorem rest_skip {c : Cursor} {text after : List Char} (h : c.rest = text ++ after) :
    (c.skip text).rest = after := by
  rw [rest_skip_eq_drop, h, List.drop_left]

end Cursor

end Quill
