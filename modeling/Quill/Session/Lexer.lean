import Quill.Lexer.Basic
import Quill.Session.Cursor

/-!
# Sessions with a lexer

Every operation of a lexer can be requested, the single scanners included. `LexerRequest.run` says
what it does to the lexer; `LexerRequest.events` what is told of it.
-/

namespace Quill

/-- What can be asked of a lexer. -/
inductive LexerRequest where
  /-- Bind a text. -/
  | load (text : List Char)
  /-- Set the radix of numerals. -/
  | setRadix (base : Int)
  /-- Read the first token of the text. -/
  | reset
  /-- Read the next token. -/
  | advance
  /-- Look at the next character. -/
  | peekChar
  /-- Read the next character. -/
  | readChar
  /-- Look at the next token. -/
  | ahead
  /-- Consume a token of a kind. -/
  | consume (kind : Kind)
  /-- Read all tokens of the text. -/
  | tokens
  /-- Skip blanks and a comment. -/
  | skipGap
  /-- Skip to the end of the line. -/
  | skipLine
  /-- Ask whether a text counts as a digit. -/
  | isDigit (text : List Char)
  /-- Read a text as a number that is said to begin at `pos`. -/
  | number (text : List Char) (pos : Int)
  /-- Scan a numeral. -/
  | scanNumeral (start : Location)
  /-- Scan a word. -/
  | scanWord (start : Location)
  /-- Scan a literal. -/
  | scanLiteral (start : Location)
  /-- Scan an operator, if one is next. -/
  | scanOperator (start : Location)
  deriving DecidableEq

namespace LexerRequest

/-- What a lexer does on a request. -/
def run : LexerRequest → LexerM Reply
  | load text => do
    modify (·.load text)
    pure .nothing
  | setRadix base => do
    Lexer.setRadix base
    pure .nothing
  | reset => .token <$> Lexer.reset
  | advance => .token <$> Lexer.advance
  | peekChar => return .text (textOfChar (← get).peekChar?)
  | readChar => do
    let c ← Lexer.readChar
    pure (.text (String.singleton c))
  | ahead => .token <$> TokenReader.ahead
  | consume kind => .token <$> TokenReader.consume kind
  | tokens => .tokens <$> Lexer.tokens
  | skipGap => do
    modify Lexer.skipGap
    pure .nothing
  | skipLine => do
    modify Lexer.skipLine
    pure .nothing
  | isDigit text => return .flag ((← get).radix.isDigitText text)
  | number text pos => do
    match (← get).radix.numberOfText text pos with
    | .ok x => pure (.number x)
    | .error e => throw e
  | scanNumeral start => .token <$> Lexer.scanNumeral start
  | scanWord start => .token <$> Lexer.scanWord start
  | scanLiteral start => .token <$> Lexer.scanLiteral start
  | scanOperator start => do
    match ← Lexer.scanOperator? start with
    | some t => pure (.token t)
    | none => pure .nothing

/-- What is told of a request, from the radix before and after it: the length of a text that is
bound, and a radix that is another one than before. -/
def events (request : LexerRequest) (before after : Radix) : List Event :=
  match request with
  | load text => [.bound text.length]
  | setRadix _ => if after = before then [] else [.radixChanged before.base after.base]
  | _ => []

/-- How a request to a lexer ends. -/
def perform (request : LexerRequest) (l : Lexer) : Outcome Lexer :=
  let outcome := Outcome.ofResult (request.run l)
  { outcome with events := request.events l.radix outcome.state.radix }

end LexerRequest

end Quill
