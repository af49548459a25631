import Quill.Parser
import Quill.Session.Lexer

/-!
# Sessions with a parser

A parser is a lexer whose tokens are consumed by the rules of the grammar. A whole text can be
parsed, which begins from its first token, and every rule can be followed on its own from the
current token.

The source of a parser is not kept apart from the buffer of its lexer: both are the text of the one
lexer that the parser is. So that the two never drift apart, whatever is asked of the parser or of
its lexer, is not proved of the requests but holds by construction, and an event that tells of the
source tells of that text (`ParserRequest.events`).
-/

namespace Quill

/-- What can be asked of a parser at the current token. -/
inductive RuleRequest where
  /-- Ask for the current token. -/
  | current
  /-- Ask whether the current token is of one of some kinds. -/
  | at_ (kinds : List Kind)
  /-- Consume a token of a kind. -/
  | eat (kind : Kind)
  /-- Consume a terminator, if one is next. -/
  | terminator
  /-- Fail unless an item or the end of a list is next. -/
  | separator (rule : String) (allowed : List Kind) (item : String)
  /-- Follow a rule. -/
  | follow (category : Category) (rule : Rule category)
  /-- Follow the rule for a clause, the current token being taken for its keyword. -/
  | clause

/-- The script that answers a request. -/
def RuleRequest.script : RuleRequest → Script Reply
  | current => .token <$> Script.peek
  | at_ kinds => .flag <$> Script.at? kinds
  | eat kind => .token <$> Script.expect kind
  | terminator => do
    Script.terminator
    pure .nothing
  | separator rule allowed item => do
    Script.separator rule allowed item
    pure .nothing
  | follow category rule => Reply.ofTree category <$> Script.parse rule
  | clause => do
    let keyword ← Script.peek
    let c ← Script.parse (.clause keyword)
    pure (.node (.clause c))

/-- What can be asked of a parser. -/
inductive ParserRequest where
  /-- A request to its lexer. -/
  | lexer (request : LexerRequest)
  /-- Parse the whole text. -/
  | parse (entry : Entry)
  /-- A request at the current token. -/
  | rule (request : RuleRequest)

namespace ParserRequest

/-- What a parser does on a request. -/
def run : ParserRequest → LexerM Reply
  | lexer request => request.run
  | parse entry => .node <$> Lexer.parse entry
  | rule request => request.script.execute

/-- What is told of a request that ended with `outcome`, made in the state `before`. -/
def events (request : ParserRequest) (before : Lexer) (outcome : Outcome Lexer) : List Event :=
  match request with
  | lexer request => request.events before.radix outcome.state.radix
  | parse entry =>
    .parsing entry before.source ::
      match outcome.reply with
      | .ok (.node (.program p)) => [.parsed p.functions.length]
      | _ => []
  | rule _ => []

/-- How a request to a parser ends. -/
def perform (request : ParserRequest) (l : Lexer) : Outcome Lexer :=
  let outcome := Outcome.ofResult (request.run l)
  { outcome with events := request.events l outcome }

end ParserRequest

end Quill
