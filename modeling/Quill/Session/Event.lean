import Quill.Grammar.Script

/-!
# Events

What a lexer and a parser tell about their work while a session runs.
-/

namespace Quill

/-- Who tells an event. -/
inductive Channel where
  | lexer | parser
  deriving DecidableEq

/-- Something worth telling. -/
inductive Event where
  /-- A text of so many characters was bound. -/
  | bound (characters : Nat)
  /-- The radix changed. -/
  | radixChanged (before after : Nat)
  /-- A parse of a text began. -/
  | parsing (entry : Entry) (source : List Char)
  /-- A program of so many functions was parsed. -/
  | parsed (functions : Nat)
  deriving DecidableEq

namespace Event

/-- Who tells an event. -/
def channel : Event → Channel
  | bound _ | radixChanged _ _ => .lexer
  | parsing _ _ | parsed _ => .parser

/-- An event in words. A program may be long, so of its text only the length is told. -/
def message : Event → String
  | bound characters => "Lexer bound to " ++ toString characters ++ " characters of input"
  | radixChanged before after =>
    "Lexer numeral base changed from " ++ toString before ++ " to " ++ toString after
  | parsing .program source =>
    "Parsing program (" ++ toString source.length ++ " characters)"
  | parsing .expression source => "Parsing expression " ++ Text.quoted (String.ofList source)
  | parsing .condition source => "Parsing condition " ++ Text.quoted (String.ofList source)
  | parsing .statement source => "Parsing statement " ++ Text.quoted (String.ofList source)
  | parsed functions => "Parsed program with " ++ toString functions ++ " function(s)"

end Event

end Quill
