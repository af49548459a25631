import Quill.Lexer.Scan
import Quill.Source.Cursor
import Quill.Token.Reader

/-!
# The lexer

A lexer holds a cursor in a source text, the radix and the reserved words by which it reads, and
the last token it made. `advance` scans the next token and makes it the current one; the token
before it decides whether a sign joins two operands.

A scan that fails leaves the current token as it was and the cursor after the characters that the
scan took. So a lexer is a reader of tokens. `tokens` reads a whole text; it ends because every
token but the last takes a character (`remaining_lt_of_advance`).
-/

namespace Quill

/-- A source text that is being cut into tokens. -/
structure Lexer where
  /-- The reserved words. -/
  keywords : KeywordTable
  /-- How numerals are read. -/
  radix : Radix
  /-- What has been read of the text. -/
  cursor : Cursor
  /-- The last token made, if there is one since the text was bound. -/
  current : Option Token
  deriving DecidableEq

/-- An operation on a lexer, which may fail and then leaves it in the state it had got to. -/
abbrev LexerM := EStateM Fault Lexer

namespace Lexer

/-- A lexer for the empty text. -/
def new (keywords : KeywordTable) (radix : Radix) : Lexer := ⟨keywords, radix, .ofText [], none⟩

/-- The source text. -/
def source (l : Lexer) : List Char := l.cursor.source

/-- Characters not yet read. -/
def remaining (l : Lexer) : Nat := l.cursor.rest.length

/-- The lexer at the beginning of a text. -/
def load (l : Lexer) (text : List Char) : Lexer :=
  { l with cursor := .ofText text, current := none }

/-- The lexer at the beginning of its text. -/
def rewind (l : Lexer) : Lexer := l.load l.source

/-- A lexer for the empty text that reads numerals in a given base, if the base is in range. -/
def create (keywords : KeywordTable) (base : Int) : Except Fault Lexer :=
  match Radix.ofInt? base with
  | some radix => .ok (new keywords radix)
  | none => .error (.badRadix base)

/-- Sets the radix in which numerals are read. -/
def setRadix (base : Int) : LexerM Unit := do
  match Radix.ofInt? base with
  | some radix => modify fun l => { l with radix }
  | none => throw (.badRadix base)

/-! ## Characters -/

/-- The lexer after a run of characters. -/
def skip (l : Lexer) (text : List Char) : Lexer := { l with cursor := l.cursor.skip text }

/-- The next character. -/
def peekChar? (l : Lexer) : Option Char := l.cursor.peek? 0

/-- Reads the next character. -/
def readChar : LexerM Char := fun l =>
  match l.cursor.next with
  | .ok (c, cursor) => .ok c { l with cursor }
  | .error e => .error e l

/-- The lexer after the blanks and the comment that stand next. -/
def skipGap (l : Lexer) : Lexer := l.skip (gap l.cursor.rest)

/-- The lexer at the end of the line. -/
def skipLine (l : Lexer) : Lexer := l.skip (restOfLine l.cursor.rest)

/-! ## Single scanners -/

/-- Takes the characters of a scan, and gives its token or fails as it did. -/
def take (scan : Scan) : LexerM Token := fun l =>
  match scan.outcome with
  | .ok t => .ok t (l.skip scan.taken)
  | .error e => .error e (l.skip scan.taken)

/-- Scans a numeral. -/
def scanNumeral (start : Location) : LexerM Token := do
  let l ← get
  take (.numeral l.radix start l.cursor.rest)

/-- Scans a word. -/
def scanWord (start : Location) : LexerM Token := do
  let l ← get
  take (.word l.keywords start l.cursor.rest)

/-- Scans a literal that the next character begins and ends, whatever it is. -/
def scanLiteral (start : Location) : LexerM Token := do
  let l ← get
  match l.cursor.rest with
  | [] => throw l.cursor.pastEnd
  | quote :: rest => take (.literal start quote rest)

/-- Scans an operator, if one stands next. -/
def scanOperator? (start : Location) : LexerM (Option Token) := do
  let l ← get
  match Scan.operator? (l.current.map (·.kind)) start l.cursor.rest with
  | some scan => some <$> take scan
  | none => pure none

/-! ## Tokens -/

/-- What stands next, after the gap. -/
def nextScan (l : Lexer) : Scan :=
  let cursor := l.skipGap.cursor
  .token l.keywords l.radix (l.current.map (·.kind)) cursor.location cursor.rest

/-- Scans the next token and makes it the current one. -/
def advance : LexerM Token := fun l =>
  let scan := l.nextScan
  let after := l.skipGap.skip scan.taken
  match scan.outcome with
  | .ok t => .ok t { after with current := some t }
  | .error e => .error e after

/-- Makes the first token of the text the current one. -/
def reset : LexerM Token := fun l => advance l.rewind

instance : TokenReader Lexer where
  current? := current
  advance := advance
  remaining := remaining

/-- What is skipped no longer remains. -/
theorem remaining_skip (l : Lexer) (text : List Char) :
    (l.skip text).remaining = l.remaining - text.length :=
  Cursor.length_rest_skip ..

/-- A token other than the end leaves fewer characters. -/
theorem remaining_lt_of_advance {l l' : Lexer} {t : Token} (h : advance l = .ok t l')
    (ht : t.kind ≠ .eof) : l'.remaining < l.remaining := by
  unfold advance at h
  dsimp only at h
  split at h
  · rename_i ht'
    cases h
    have taken := Scan.taken_ne_nil_of_token ht' ht
    have present : l.skipGap.cursor.rest ≠ [] := by
      intro hnil
      simp only [nextScan, hnil, Scan.token] at ht'
      cases ht'
      exact ht rfl
    have bound : l.skipGap.remaining ≤ l.remaining := by
      rw [skipGap, remaining_skip]
      omega
    have some_left : 0 < l.skipGap.remaining := List.length_pos_iff.2 present
    have some_taken : 0 < l.nextScan.taken.length := List.length_pos_iff.2 taken
    show (l.skipGap.skip l.nextScan.taken).remaining < l.remaining
    rw [remaining_skip]
    omega
  · cases h

/-- The tokens that follow, up to the end of the input. -/
def tokensFrom (l : Lexer) : EStateM.Result Fault Lexer (List Token) :=
  match _h : advance l with
  | .error e l' => .error e l'
  | .ok t l' =>
    if _ht : t.kind = .eof then .ok [t] l'
    else
      match tokensFrom l' with
      | .ok ts l'' => .ok (t :: ts) l''
      | .error e l'' => .error e l''
termination_by l.remaining
decreasing_by exact remaining_lt_of_advance _h _ht

/-- All tokens of the text, from its beginning. -/
def tokens : LexerM (List Token) := fun l => tokensFrom l.rewind

end Lexer

/-- The tokens of a text. -/
def tokenize (keywords : KeywordTable) (radix : Radix) (source : String) :
    Except Fault (List Token) :=
  match ((Lexer.new keywords radix).load source.toList).tokensFrom with
  | .ok ts _ => .ok ts
  | .error e _ => .error e

end Quill
