import Quill.Session.Basic
import Quill.Source.Cursor

/-!
# Sessions with a cursor
-/

namespace Quill

/-- What can be asked of a cursor. -/
inductive CursorRequest where
  /-- Read a character. -/
  | next
  /-- Look at a character so far away. -/
  | peek (distance : Int)
  /-- Ask whether every character has been read. -/
  | atEnd
  /-- Ask for the location. -/
  | snapshot
  /-- Go to a place. -/
  | restore (offset : Nat) (line column : Int)
  deriving DecidableEq

/-- A character as a text, which is empty if there is none. -/
def textOfChar : Option Char → String
  | some c => String.singleton c
  | none => ""

/-- What a cursor answers, and where it is then. -/
def CursorRequest.perform : CursorRequest → Cursor → Outcome Cursor
  | next, c =>
    match c.next with
    | .ok (char, c') => ⟨.ok (.text (String.singleton char)), c', []⟩
    | .error e => ⟨.error e, c, []⟩
  | peek distance, c => ⟨.ok (.text (textOfChar (c.peek? distance))), c, []⟩
  | atEnd, c => ⟨.ok (.flag c.atEnd), c, []⟩
  | snapshot, c => ⟨.ok (.location c.location), c, []⟩
  | restore offset line column, c => ⟨.ok .nothing, c.restore offset line column, []⟩

end Quill
