import Quill.Grammar.Rules
import Quill.Token.Reader

/-!
# Following the grammar

A script runs on any reader of tokens. The rules that it follows are run in turn, each with one
step less than the rule that follows it (`Rule.run`), so running a rule is a structural recursion.
No chain of rules that consumes nothing is longer than `stepsPerToken`, which is why the steps that
`Rule.parse` grants by the length of the input are never used up.
-/

namespace Quill

section
variable {σ : Type} [TokenReader σ]

/-- Runs a script, given how to run the rules it follows. -/
def Script.run (follow : {c : Category} → Rule c → EStateM Fault σ c.Tree) {α : Type} :
    Script α → EStateM Fault σ α
  | .done a => pure a
  | .fail d => throw (.diagnostic d)
  | .current next => do
    let t ← TokenReader.current
    (next t).run follow
  | .ahead next => do
    let t ← TokenReader.ahead
    (next t).run follow
  | .eat kind next => do
    let t ← TokenReader.consume kind
    (next t).run follow
  | .follow rule next => do
    let a ← follow rule
    (next a).run follow

/-- Runs a rule, following others to a depth of so many steps. -/
def Rule.run : (steps : Nat) → {c : Category} → Rule c → EStateM Fault σ c.Tree
  | 0, _, _ => throw .outOfSteps
  | steps + 1, _, rule => rule.script.run fun rule => rule.run steps

/-- Steps enough for the rules that are followed before a token is consumed. -/
def stepsPerToken : Nat := 16

/-- Steps enough for what a reader has still to give: the tokens to be read, the current one, the
end of the input, and the rule that the script begins with. -/
def stepsFor (s : σ) : Nat := stepsPerToken * (TokenReader.remaining s + 3)

/-- Runs a script to its end. -/
def Script.execute {α : Type} (script : Script α) : EStateM Fault σ α := do
  let steps := stepsFor (← get)
  script.run fun rule => rule.run steps

/-- Follows a rule from the current token. -/
def Rule.parse {c : Category} (rule : Rule c) : EStateM Fault σ c.Tree :=
  (Script.parse rule).execute

end

end Quill
