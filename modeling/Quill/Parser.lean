import Quill.Grammar.Run
import Quill.Lexer.Basic

/-!
# Parsing a text

`Lexer.parse` reads the text a lexer is bound to from its beginning, as a program, an expression, a
condition or a statement. `parse` does so for a text of its own, `parseTokens` for tokens that are
already there.
-/

namespace Quill

/-- Parses the whole text, whatever has been read of it before. -/
def Lexer.parse (entry : Entry) : LexerM Node := do
  let _ ← Lexer.reset
  (Rule.entry entry).parse

/-- The tree of a text, or why there is none. -/
def parse (keywords : KeywordTable) (radix : Radix) (entry : Entry) (source : String) :
    Except Fault Node :=
  match Lexer.parse entry ((Lexer.new keywords radix).load source.toList) with
  | .ok node _ => .ok node
  | .error e _ => .error e

/-- The tree of a list of tokens, or why there is none. -/
def parseTokens (entry : Entry) (tokens : List Token) : Except Fault Node :=
  match (Rule.entry entry).parse (Tape.mk tokens) with
  | .ok node _ => .ok node
  | .error e _ => .error e

end Quill
