import Quill.Session.Event
import Quill.Tree.Basic

/-!
# Sessions

In a session requests are made to a lexer, to a parser or to a cursor, one after another. Each is
answered by a reply or by the fault it failed with, and leaves a state from which the session goes
on, whether or not it failed.
-/

namespace Quill

/-- What a request gives. -/
inductive Reply where
  | nothing
  | text (s : String)
  | flag (b : Bool)
  | number (x : Binary64)
  | location (l : Location)
  | token (t : Token)
  | tokens (ts : List Token)
  | node (n : Node)
  | nodes (ns : List Node)

/-- The reply that holds a tree. -/
def Reply.ofTree : (c : Category) → c.Tree → Reply
  | .nothing, _ => .nothing
  | .tokens, ts => .tokens ts
  | .exprs, es => .nodes (es.map .expr)
  | .statements, ss => .nodes (ss.map .statement)
  | .clauses, cs => .nodes (cs.map .clause)
  | .functions, fs => .nodes (fs.map .function)
  | .expr, e => .node (.expr e)
  | .call, c => .node (.call c)
  | .args, a => .node (.args a)
  | .params, p => .node (.params p)
  | .scope, s => .node (.statement (.scope s))
  | .clause, c => .node (.clause c)
  | .branch, b => .node (.statement (.branch b))
  | .statement, s => .node (.statement s)
  | .function, f => .node (.function f)
  | .program, p => .node (.program p)
  | .node, n => .node n

/-- How a request ended. -/
structure Outcome (σ : Type) where
  /-- What it gave, or why it failed. -/
  reply : Except Fault Reply
  /-- The state after it. -/
  state : σ
  /-- What was told meanwhile. -/
  events : List Event

/-- The outcome of an operation of which nothing is told. -/
def Outcome.ofResult {σ : Type} : EStateM.Result Fault σ Reply → Outcome σ
  | .ok reply s => ⟨.ok reply, s, []⟩
  | .error e s => ⟨.error e, s, []⟩

/-- The outcomes of requests made one after another. -/
def outcomes {σ ρ : Type} (perform : ρ → σ → Outcome σ) : List ρ → σ → List (Outcome σ)
  | [], _ => []
  | request :: rest, s =>
    let outcome := perform request s
    outcome :: outcomes perform rest outcome.state

end Quill
