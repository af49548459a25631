import Quill.Fault
import Quill.Text.Quoted
import Quill.Tree.Basic

/-!
# Compact text of trees

A tree is written as its class with its fields in parentheses. A list is written between brackets
and shows its first three items; three dots stand for the others. Positions are left out.
-/

namespace Quill

/-- Items between brackets, at most three of them. -/
def preview (items : List String) : String :=
  "[" ++ ", ".intercalate (items.take 3) ++ (if items.length > 3 then ", ..." else "") ++ "]"

/-- A value as a leaf shows it, text between quotes. -/
def Value.quoted : Value → String
  | .text s => Text.quoted s
  | v => v.plain

mutual

/-- The text of an expression. -/
def Expr.render : Expr → String
  | .leaf .none _ _ => "Factor(none)"
  | .leaf kind value _ => "Factor(" ++ kind.name ++ ", " ++ value.quoted ++ ")"
  | .call call _ => "Factor(call, " ++ call.render ++ ")"
  | .group inner _ => "Factor(expr, " ++ inner.render ++ ")"
  | .binary op left right _ =>
    "Binary(op=" ++ op.render ++ ", left=" ++ left.render ++ ", right=" ++ right.render ++ ")"
  | .unary op operand _ => "Unary(op=" ++ op.render ++ ", right=" ++ operand.render ++ ")"

/-- The text of a call. -/
def Call.render : Call → String
  | ⟨name, args, _⟩ => "FnCall(name=" ++ name.render ++ ", args=" ++ args.render ++ ")"

/-- The text of an argument list. -/
def Args.render : Args → String
  | ⟨items, _⟩ => "ArgList(args=" ++ preview (renderExprs items) ++ ")"

/-- The texts of expressions. -/
def renderExprs : List Expr → List String
  | [] => []
  | e :: es => e.render :: renderExprs es

end

/-- The text of a parameter list. -/
def Params.render (p : Params) : String :=
  "ArgDeclList(names=" ++ preview (p.names.map Token.render) ++ ")"

/-- The text of an optional expression. -/
def renderValue : Option Expr → String
  | none => "None"
  | some e => e.render

mutual

/-- The text of a statement. -/
def Statement.render : Statement → String
  | .scope scope => scope.render
  | .expr value _ => "ExprStatement(expr=" ++ value.render ++ ")"
  | .assign target value _ =>
    "Assign(left=" ++ target.render ++ ", right=" ++ value.render ++ ")"
  | .ret value _ => "Return(val=" ++ renderValue value ++ ")"
  | .branch branch => branch.render
  | .function function _ => "FnDecl(function=" ++ function.render ++ ")"
  | .empty _ => "EmptyStatement()"

/-- The text of a scope. -/
def Scope.render : Scope → String
  | ⟨statements, _⟩ => "Scope(statements=" ++ preview (renderStatements statements) ++ ")"

/-- The texts of statements. -/
def renderStatements : List Statement → List String
  | [] => []
  | s :: ss => s.render :: renderStatements ss

/-- The text of a clause. -/
def Clause.render : Clause → String
  | ⟨condition, body, _⟩ =>
    "CondBlock(cond=" ++ condition.render ++ ", body=" ++ body.render ++ ")"

/-- The texts of clauses. -/
def renderClauses : List Clause → List String
  | [] => []
  | c :: cs => c.render :: renderClauses cs

/-- The text of a chain of conditions. -/
def Branch.render : Branch → String
  | ⟨first, others, otherwise, _⟩ =>
    "Branch(if_block=" ++ first.render ++ ", alt_blocks=" ++ preview (renderClauses others) ++
      ", else_block=" ++ renderOtherwise otherwise ++ ")"

/-- The text of an optional statement. -/
def renderOtherwise : Option Statement → String
  | none => "None"
  | some s => s.render

/-- The text of a function. -/
def Function.render : Function → String
  | ⟨name, params, body, _⟩ =>
    "Function(name=" ++ name.render ++ ", params=" ++ params.render ++ ", body=" ++ body.render ++
      ")"

end

/-- The text of a program. -/
def Program.render (p : Program) : String :=
  "Program(functions=" ++ preview (p.functions.map Function.render) ++ ")"

namespace Node

/-- The text of a tree. -/
def render : Node → String
  | expr e => e.render
  | call c => c.render
  | args a => a.render
  | params p => p.render
  | statement s => s.render
  | clause c => c.render
  | function f => f.render
  | program p => p.render

/-- The class of a tree, by which its text begins. -/
def className : Node → String
  | expr (.binary ..) => "Binary"
  | expr (.unary ..) => "Unary"
  | expr _ => "Factor"
  | call _ => "FnCall"
  | args _ => "ArgList"
  | params _ => "ArgDeclList"
  | statement (.scope _) => "Scope"
  | statement (.expr ..) => "ExprStatement"
  | statement (.assign ..) => "Assign"
  | statement (.ret ..) => "Return"
  | statement (.branch _) => "Branch"
  | statement (.function ..) => "FnDecl"
  | statement (.empty _) => "EmptyStatement"
  | clause _ => "CondBlock"
  | function _ => "Function"
  | program _ => "Program"

/-- The texts of the items of a tree that is a list. -/
def items? : Node → Option (List String)
  | program p => some (p.functions.map Function.render)
  | params p => some (p.names.map Token.render)
  | args a => some (a.items.map Expr.render)
  | statement (.scope s) => some (s.statements.map Statement.render)
  | _ => none

/-- Trees are compared by what they hold and so have no hash. -/
def hash (n : Node) : Except Fault UInt64 := .error (.unhashable n.className)

end Node

end Quill
