import Quill.Proofs.Condition

/-!
# Writing programs

Statements are written as expressions are: `Statement.Written a ws` says that the words `ws` are a
way to write the statement, with a semicolon after each assignment, expression statement and return.

`Statement.Canonical` tells the statements that a program can be made of so that it is read back.
Apart from the expressions in them, which have to be arithmetic trees and conditions, three things
would be read in another way: a semicolon that stands alone in a scope is skipped, an `elif` or
`else` goes with the last branch that it can go with, and a parenthesis or a sign goes on with the
condition that it follows.
-/

namespace Quill

/-! ## Words of a program -/

/-- The words of parameters with commas between them. -/
def nameWords : List Token → List Word
  | [] => []
  | [n] => [n.word]
  | n :: n' :: ns => n.word :: Operator.comma.asWord :: nameWords (n' :: ns)

/-- The words of a parameter list. -/
def Params.words (p : Params) : List Word :=
  Operator.lparen.asWord :: nameWords p.names ++ [Operator.rparen.asWord]

mutual

/-- The words are a way to write the statement. -/
def Statement.Written : Statement → List Word → Prop
  | .scope b, ws => b.Written ws
  | .expr e _, ws => ∃ value, e.Written value ∧ ws = value ++ [Operator.lineEnd.asWord]
  | .assign t e _, ws =>
    ∃ value, e.Written value ∧
      ws = t.word :: Operator.assign.asWord :: (value ++ [Operator.lineEnd.asWord])
  | .ret none _, ws => ws = [Keyword.return_.asWord, Operator.lineEnd.asWord]
  | .ret (some e) _, ws =>
    ∃ value, e.Written value ∧ ws = Keyword.return_.asWord :: (value ++ [Operator.lineEnd.asWord])
  | .branch b, ws => b.Written ws
  | .function f _, ws => f.Written ws
  | .empty _, ws => ws = [Operator.lineEnd.asWord]

/-- The words are a way to write the scope. -/
def Scope.Written : Scope → List Word → Prop
  | ⟨ss, _⟩, ws =>
    ∃ inner, WrittenStatements ss inner ∧
      ws = Operator.lbrace.asWord :: inner ++ [Operator.rbrace.asWord]

/-- The words are a way to write the statements one after another. -/
def WrittenStatements : List Statement → List Word → Prop
  | [], ws => ws = []
  | s :: ss, ws => ∃ first rest, s.Written first ∧ WrittenStatements ss rest ∧ ws = first ++ rest

/-- The words are a way to write the clause without its keyword. -/
def Clause.Written : Clause → List Word → Prop
  | ⟨c, s, _⟩, ws => ∃ condition body, c.Written condition ∧ s.Written body ∧ ws = condition ++ body

/-- The words are a way to write the further clauses of a branch. -/
def WrittenClauses : List Clause → List Word → Prop
  | [], ws => ws = []
  | c :: cs, ws =>
    ∃ first rest, c.Written first ∧ WrittenClauses cs rest ∧
      ws = Keyword.elif.asWord :: (first ++ rest)

/-- The words are a way to write the branch. -/
def Branch.Written : Branch → List Word → Prop
  | ⟨c, cs, s, _⟩, ws =>
    ∃ first others otherwise, c.Written first ∧ WrittenClauses cs others ∧
      WrittenOtherwise s otherwise ∧ ws = Keyword.if_.asWord :: (first ++ (others ++ otherwise))

/-- The words are a way to write the end of a branch. -/
def WrittenOtherwise : Option Statement → List Word → Prop
  | none, ws => ws = []
  | some s, ws => ∃ body, s.Written body ∧ ws = Keyword.else_.asWord :: body

/-- The words are a way to write the function. -/
def Function.Written : Function → List Word → Prop
  | ⟨name, params, body, _⟩, ws =>
    ∃ block, body.Written block ∧
      ws = Keyword.fn.asWord :: name.word :: (params.words ++ block)

end

/-- The words are a way to write the functions one after another. -/
def WrittenFunctions : List Function → List Word → Prop
  | [], ws => ws = []
  | f :: fs, ws => ∃ first rest, f.Written first ∧ WrittenFunctions fs rest ∧ ws = first ++ rest

/-- The words are a way to write the program. -/
def Program.Written (p : Program) (ws : List Word) : Prop := WrittenFunctions p.functions ws

/-! ## Canonical programs -/

/-- The kind of the first word of a statement. -/
def Statement.first : Statement → Kind
  | scope _ => .op .lbrace
  | expr e _ => e.first
  | assign t _ _ => t.kind
  | ret _ _ => .keyword .return_
  | branch _ => .keyword .if_
  | function _ _ => .keyword .fn
  | empty _ => .op .lineEnd

/-- Whether the statement does nothing. -/
def Statement.IsEmpty : Statement → Prop
  | .empty _ => True
  | _ => False

mutual

/-- Whether the statement ends in a branch that has no `else`. -/
def Statement.EndsOpen : Statement → Prop
  | .branch b => b.EndsOpen
  | _ => False

/-- Whether the branch has no `else`, or ends in a branch that has none. -/
def Branch.EndsOpen : Branch → Prop
  | ⟨_, _, none, _⟩ => True
  | ⟨_, _, some s, _⟩ => s.EndsOpen

end

/-- Whether the statement can stand after a condition: it is no expression that goes on with one. -/
def Statement.FollowsCondition : Statement → Prop
  | .expr e _ => e.first ∉ [Kind.op .lparen, .op .pos, .op .neg]
  | _ => True

/-- Whether no clause that is followed by another one, or by an `else`, ends in a branch that would
take it. -/
def ClausesClosed : List Clause → Option Statement → Prop
  | [], _ => True
  | c :: cs, s => (cs ≠ [] ∨ s ≠ none → ¬c.body.EndsOpen) ∧ ClausesClosed cs s

mutual

/-- Whether the statement is read back as it is written. -/
def Statement.Canonical : Statement → Prop
  | .scope b => b.Canonical
  | .expr e _ => e.Arithmetic .sum
  | .assign t e _ => t.IsName ∧ e.Arithmetic .sum
  | .ret none _ => True
  | .ret (some e) _ => e.Arithmetic .sum
  | .branch b => b.Canonical
  | .function f _ => f.Canonical
  | .empty _ => True

/-- Whether the scope is read back as it is written. -/
def Scope.Canonical : Scope → Prop
  | ⟨ss, _⟩ => CanonicalStatements ss

/-- Whether the statements are read back in a scope. -/
def CanonicalStatements : List Statement → Prop
  | [] => True
  | s :: ss => s.Canonical ∧ ¬s.IsEmpty ∧ CanonicalStatements ss

/-- Whether the clause is read back as it is written. -/
def Clause.Canonical : Clause → Prop
  | ⟨c, s, _⟩ => c.Condition .disjunction ∧ s.Canonical ∧ s.FollowsCondition

/-- Whether the clauses are read back as they are written. -/
def CanonicalClauses : List Clause → Prop
  | [] => True
  | c :: cs => c.Canonical ∧ CanonicalClauses cs

/-- Whether the branch is read back as it is written. -/
def Branch.Canonical : Branch → Prop
  | ⟨c, cs, s, _⟩ =>
    c.Canonical ∧ CanonicalClauses cs ∧ CanonicalOtherwise s ∧ ClausesClosed (c :: cs) s

/-- Whether the end of a branch is read back as it is written. -/
def CanonicalOtherwise : Option Statement → Prop
  | none => True
  | some s => s.Canonical

/-- Whether the function is read back as it is written. -/
def Function.Canonical : Function → Prop
  | ⟨name, params, body, _⟩ => name.IsName ∧ (∀ n ∈ params.names, n.IsName) ∧ body.Canonical

end

/-- Whether the program is read back as it is written. -/
def Program.Canonical (p : Program) : Prop :=
  p.functions ≠ [] ∧ ∀ f ∈ p.functions, f.Canonical

end Quill
