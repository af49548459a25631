import Quill.Fault
import Quill.Token.Basic

/-!
# Readers of tokens

A reader gives the tokens of an input one after another. It knows the current token, once the first
one has been read, and can move to the next. From these two follow looking one token ahead, which
moves nothing, and consuming a token of a required kind, which moves by one or, if the current token
is of another kind, not at all.

`Tape` is the plainest reader: a list of tokens that have all been read before.
-/

namespace Quill

/-- An input that is read token by token. -/
class TokenReader (σ : Type) where
  /-- The current token, if the first one has been read. -/
  current? : σ → Option Token
  /-- Reads the next token and makes it the current one. -/
  advance : EStateM Fault σ Token
  /-- A bound on the tokens that are still to be read. -/
  remaining : σ → Nat

namespace TokenReader

variable {σ : Type} [TokenReader σ]

/-- The current token. -/
def current : EStateM Fault σ Token := do
  match current? (← get) with
  | some t => pure t
  | none => throw .noCurrentToken

/-- The token after the current one. Nothing is consumed, whether or not there is one. -/
def ahead : EStateM Fault σ Token := fun s =>
  match advance s with
  | .ok t _ => .ok t s
  | .error e _ => .error e s

/-- Consumes the current token if it is of a kind. -/
def consume (kind : Kind) : EStateM Fault σ Token := do
  match current? (← get) with
  | none => throw .notStarted
  | some t =>
    if t.hasKind kind then
      let _ ← advance
      pure t
    else throw (.atPosition (.tokenMismatch kind t.kind) t.pos)

end TokenReader

/-- Tokens in order, the first of which is the current one. -/
structure Tape where
  /-- The tokens not yet consumed. -/
  tokens : List Token
  deriving DecidableEq

namespace Tape

/-- Moves to the next token; the last one is never left. -/
def advance : EStateM Fault Tape Token := fun tape =>
  match tape.tokens with
  | _ :: t :: rest => .ok t ⟨t :: rest⟩
  | [t] => .ok t tape
  | [] => .error .notStarted tape

instance : TokenReader Tape where
  current? tape := tape.tokens.head?
  advance := advance
  remaining tape := tape.tokens.length

end Tape

end Quill
