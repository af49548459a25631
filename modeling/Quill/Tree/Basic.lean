import Quill.Fault
import Quill.Token.Basic

/-!
# Syntax trees

A program is a list of functions, a function has parameters and a scope, a scope is a list of
statements, and expressions stand in statements. Every node knows the offset of its source
(`pos`), which takes no part in comparisons.

Conditions and arithmetic share the type `Expr`. A leaf carries a value; a call and an expression
in parentheses have the trees of their own as constructors.
-/

namespace Quill

/-- What a leaf of an expression is. -/
inductive LeafKind where
  | number | string | symbol | bool | call | expr
  /-- Stands where the input ended before an operand. -/
  | none
  deriving DecidableEq

namespace LeafKind

/-- The name of a kind of leaf. -/
def name : LeafKind → String
  | number => "number" | string => "string" | symbol => "symbol" | bool => "bool"
  | call => "call" | expr => "expr" | none => "none"

/-- Every kind of leaf. -/
def all : List LeafKind := [number, string, symbol, bool, call, expr, none]

/-- The kind of leaf of a name. -/
def ofName (name : String) : Except Fault LeafKind :=
  match all.find? fun k => k.name = name with
  | some k => .ok k
  | _ => .error (.unknownLeafKind name)

end LeafKind

mutual

/-- An expression, arithmetic or logical. -/
inductive Expr where
  /-- A value, a name, or the placeholder for a missing operand. -/
  | leaf (kind : LeafKind) (value : Value) (pos : Int)
  /-- A call of a function. -/
  | call (call : Call) (pos : Int)
  /-- An expression in parentheses. -/
  | group (inner : Expr) (pos : Int)
  /-- An operator between two operands. -/
  | binary (op : Token) (left right : Expr) (pos : Int)
  /-- An operator before its operand. -/
  | unary (op : Token) (operand : Expr) (pos : Int)

/-- A call: the function's name and the arguments. -/
structure Call where
  /-- The name of the function. -/
  name : Token
  /-- What it is called with. -/
  args : Args
  /-- Where the call begins. -/
  pos : Int

/-- The arguments of a call. -/
structure Args where
  /-- The arguments in order. -/
  items : List Expr
  /-- Where the list begins. -/
  pos : Int

end

namespace Expr

/-- Where an expression begins. -/
def pos : Expr → Int
  | leaf _ _ pos | call _ pos | group _ pos | binary _ _ _ pos | unary _ _ pos => pos

end Expr

/-- The parameters of a function. -/
structure Params where
  /-- The names in order. -/
  names : List Token
  /-- Where the list begins. -/
  pos : Int
  deriving DecidableEq

mutual

/-- A statement. -/
inductive Statement where
  /-- A block of statements. -/
  | scope (scope : Scope)
  /-- An expression for its effect. -/
  | expr (value : Expr) (pos : Int)
  /-- An assignment to a name. -/
  | assign (target : Token) (value : Expr) (pos : Int)
  /-- A return, with a value or without one. -/
  | ret (value : Option Expr) (pos : Int)
  /-- A chain of conditions. -/
  | branch (branch : Branch)
  /-- A function declared inside another one. -/
  | function (function : Function) (pos : Int)
  /-- A terminator where a statement could stand. -/
  | empty (pos : Int)

/-- Statements between braces. -/
structure Scope where
  /-- The statements in order. -/
  statements : List Statement
  /-- Where the block begins. -/
  pos : Int

/-- A condition and the statement it guards. -/
structure Clause where
  /-- When the body is executed. -/
  condition : Expr
  /-- What is executed. -/
  body : Statement
  /-- Where the clause begins. -/
  pos : Int

/-- A chain of conditions, of which the first that holds decides. -/
structure Branch where
  /-- The first clause. -/
  first : Clause
  /-- The clauses after it, in order. -/
  others : List Clause
  /-- What is executed if no condition holds. -/
  otherwise : Option Statement
  /-- Where the chain begins. -/
  pos : Int

/-- A function. -/
structure Function where
  /-- The name. -/
  name : Token
  /-- The parameters. -/
  params : Params
  /-- What a call executes. -/
  body : Scope
  /-- Where the function begins. -/
  pos : Int

end

/-- A program. -/
structure Program where
  /-- The functions in order. -/
  functions : List Function
  /-- Where the program begins. -/
  pos : Int

/-- Any tree. -/
inductive Node where
  | expr (e : Expr)
  | call (c : Call)
  | args (a : Args)
  | params (p : Params)
  | statement (s : Statement)
  | clause (c : Clause)
  | function (f : Function)
  | program (p : Program)

end Quill
