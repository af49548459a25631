import Quill.Tree.Basic

/-!
# Rules and scripts

The grammar has one rule for each construct (`Rule`), sorted by the tree it builds (`Category`).
What a rule does is a `Script`: a finite tree of commands on a stream of tokens. A script looks at
the current token or the one after it, consumes a token of a given kind, follows another rule, and
in the end gives a tree or fails. Scripts do not recur; only following rules does.

A repetition is a rule that follows itself. Rules for lists build the list from the front; rules
for chains of operators are given the tree built so far, to which they add on the right.
-/

namespace Quill

/-- What the trees of a rule are. -/
inductive Category where
  | nothing | tokens | exprs | statements | clauses | functions
  | expr | call | args | params | scope | clause | branch | statement | function | program | node
  deriving DecidableEq

/-- The trees of a category. -/
@[reducible] def Category.Tree : Category → Type
  | nothing => Unit
  | tokens => List Token
  | exprs => List Expr
  | statements => List Statement
  | clauses => List Clause
  | functions => List Function
  | expr => Expr
  | call => Call
  | args => Args
  | params => Params
  | scope => Scope
  | clause => Clause
  | branch => Branch
  | statement => Statement
  | function => Function
  | program => Program
  | node => Node

/-- What a text can be parsed as. -/
inductive Entry where
  | program | expression | condition | statement
  deriving DecidableEq

/-- The rules of the grammar. -/
inductive Rule : Category → Type where
  /-- A whole text. -/
  | entry (e : Entry) : Rule .node
  /-- Any number of terminators. -/
  | terminators : Rule .nothing
  /-- The end of the input, after any terminators. -/
  | end_ : Rule .nothing
  /-- Functions with terminators between them, at least one. -/
  | program : Rule .program
  /-- The functions up to the end of the input. -/
  | functions : Rule .functions
  /-- A function with its keyword. -/
  | function : Rule .function
  /-- Parameters between parentheses. -/
  | params : Rule .params
  /-- The parameters up to the closing parenthesis. -/
  | names : Rule .tokens
  /-- Statements between braces. -/
  | scope : Rule .scope
  /-- The statements up to the closing brace. -/
  | statements : Rule .statements
  /-- A statement. -/
  | statement : Rule .statement
  /-- A statement that begins with a name. -/
  | named : Rule .statement
  /-- A return. -/
  | ret : Rule .statement
  /-- A chain of conditions. -/
  | branch : Rule .branch
  /-- The further conditions of a chain. -/
  | clauses : Rule .clauses
  /-- A condition and its body, after their keyword. -/
  | clause (keyword : Token) : Rule .clause
  /-- A sum. -/
  | expr : Rule .expr
  /-- The further terms of a sum. -/
  | exprTail (left : Expr) : Rule .expr
  /-- A product. -/
  | term : Rule .expr
  /-- The further factors of a product. -/
  | termTail (left : Expr) : Rule .expr
  /-- A power. -/
  | power : Rule .expr
  /-- An operand with its signs. -/
  | factor : Rule .expr
  /-- A name, or a call by that name. -/
  | name : Rule .expr
  /-- A call. -/
  | call : Rule .call
  /-- Arguments between parentheses, of a list that begins at `pos`. -/
  | args (pos : Int) : Rule .args
  /-- The arguments up to the closing parenthesis. -/
  | items : Rule .exprs
  /-- A disjunction. -/
  | disjunction : Rule .expr
  /-- The further terms of a disjunction. -/
  | disjunctionTail (left : Expr) : Rule .expr
  /-- A conjunction. -/
  | conjunction : Rule .expr
  /-- The further terms of a conjunction. -/
  | conjunctionTail (left : Expr) : Rule .expr
  /-- A comparison with its negations. -/
  | negation : Rule .expr
  /-- A chain of comparisons. -/
  | comparison : Rule .expr
  /-- The further operands of a chain of comparisons. -/
  | comparisonTail (left : Expr) : Rule .expr
  /-- An operand of a comparison. -/
  | comparand : Rule .expr

/-- Commands on a stream of tokens. -/
inductive Script (α : Type) : Type where
  /-- Gives a result. -/
  | done (a : α)
  /-- Reports an error. -/
  | fail (d : Diagnostic)
  /-- Looks at the current token. -/
  | current (next : Token → Script α)
  /-- Looks at the token after the current one. -/
  | ahead (next : Token → Script α)
  /-- Consumes the current token, which must be of a kind. -/
  | eat (kind : Kind) (next : Token → Script α)
  /-- Follows a rule. -/
  | follow {c : Category} (rule : Rule c) (next : c.Tree → Script α)

namespace Script

/-- One script after another. -/
def bind {α β : Type} : Script α → (α → Script β) → Script β
  | done a, f => f a
  | fail d, _ => fail d
  | current next, f => current fun t => (next t).bind f
  | ahead next, f => ahead fun t => (next t).bind f
  | eat kind next, f => eat kind fun t => (next t).bind f
  | follow rule next, f => follow rule fun a => (next a).bind f

instance : Monad Script where
  pure := done
  bind := bind

/-- The current token. -/
def peek : Script Token := current done

/-- The token after the current one. -/
def peekAhead : Script Token := ahead done

/-- Consumes a token of a kind. -/
def expect (kind : Kind) : Script Token := eat kind done

/-- Follows a rule. -/
def parse {c : Category} (rule : Rule c) : Script c.Tree := follow rule done

/-- Whether the current token is of one of the given kinds. -/
def at? (kinds : List Kind) : Script Bool := current fun t => done (t.kind ∈ kinds)

/-- Reports that a rule does not accept a token. -/
def reject {α : Type} (rule : String) (t : Token) (expected : String) : Script α :=
  fail ⟨.grammar rule t.kind (some expected), t.pos⟩

end Script

end Quill
