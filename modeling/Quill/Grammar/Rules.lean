import Quill.Grammar.Script

/-!
# The grammar

```text
program     := function+
function    := "fn" name params scope
params      := "(" (name ("," name)* ","?)? ")"
scope       := "{" statement* "}"
statement   := scope | name "=" expr | expr | branch | return | function | terminator
return      := "return" expr?
branch      := "if" clause ("elif" clause)* ("else" statement)?
clause      := disjunction statement
expr        := term (("+" | "-") term)*
term        := power (("*" | "/" | "//" | "%") power)*
power       := factor ("**" power)?
factor      := number | string | bool | name | call | "(" expr ")" | "**" power | sign factor
call        := name args
args        := "(" (expr ("," expr)* ","?)? ")"
disjunction := conjunction ("||" conjunction)*
conjunction := negation ("&&" negation)*
negation    := "!" negation | comparison
comparison  := comparand (relation comparand)*
comparand   := bool | "!" comparison | "(" disjunction ")" | expr
```

Terminators may stand between functions and between the statements of a scope, and one is consumed
after a statement. Where the input ends before an operand, the operand is the placeholder leaf; a
parenthesis, brace or comma that is still open then makes the parse fail further on. One token of
lookahead tells an assignment and a call from a plain name.
-/

namespace Quill

namespace Script

/-- Consumes a terminator if one is next. -/
def terminator : Script Unit := do
  if ← at? [.op .lineEnd] then
    let _ ← expect (.op .lineEnd)

/-- After a comma: fails unless another item or the closing parenthesis is next. -/
def separator (rule : String) (allowed : List Kind) (item : String) : Script Unit := do
  let t ← peek
  unless t.kind = .op .rparen ∨ t.kind ∈ allowed do
    reject rule t (item ++ " or RPAREN")

/-- The last part of a chain of operators: if one of them is next, a further operand is joined to
the tree on its left and the chain goes on with `tail`. -/
def chain (operators : List Operator) (consumed : Kind) (operand : Rule .expr)
    (tail : Expr → Rule .expr) (left : Expr) : Script Expr := do
  if ← at? (operators.map .op) then
    let op ← expect consumed
    let right ← parse operand
    parse (tail (.binary op left right left.pos))
  else pure left

end Script

namespace Rule

open Script

/-- What a rule does. -/
def script : {c : Category} → Rule c → Script c.Tree
  | _, entry .program => do
    let p ← parse program
    pure (.program p)
  | _, entry .expression => do
    let e ← parse expr
    parse end_
    pure (.expr e)
  | _, entry .condition => do
    let e ← parse disjunction
    parse end_
    pure (.expr e)
  | _, entry .statement => do
    let s ← parse statement
    parse end_
    pure (.statement s)
  | _, terminators => do
    if ← at? [.op .lineEnd] then
      let _ ← expect (.op .lineEnd)
      parse terminators
  | _, end_ => do
    parse terminators
    let _ ← expect .eof
  -- Program structure
  | _, program => do
    parse terminators
    let start ← peek
    let f ← parse function
    parse terminators
    let fs ← parse functions
    pure ⟨f :: fs, start.pos⟩
  | _, functions => do
    if ← at? [.eof] then pure []
    else
      let f ← parse function
      parse terminators
      let fs ← parse functions
      pure (f :: fs)
  | _, function => do
    let keyword ← expect (.keyword .fn)
    let name ← expect .ident
    let ps ← parse params
    let body ← parse scope
    pure ⟨name, ps, body, keyword.pos⟩
  | _, params => do
    let start ← expect (.op .lparen)
    let ns ← parse names
    let _ ← expect (.op .rparen)
    pure ⟨ns, start.pos⟩
  | _, names => do
    if ← at? [.op .rparen] then pure []
    else
      let n ← expect .ident
      if ← at? [.op .comma] then
        let _ ← expect (.op .comma)
        separator "arg_decl_list" [.ident] "IDENT"
        let ns ← parse names
        pure (n :: ns)
      else pure [n]
  | _, scope => do
    let start ← expect (.op .lbrace)
    parse terminators
    let ss ← parse statements
    let _ ← expect (.op .rbrace)
    pure ⟨ss, start.pos⟩
  | _, statements => do
    if ← at? [.op .rbrace, .eof] then pure []
    else
      let s ← parse statement
      parse terminators
      let ss ← parse statements
      pure (s :: ss)
  -- Statements
  | _, statement => do
    let t ← peek
    if t.kind = .op .lbrace then
      let s ← parse scope
      pure (.scope s)
    else if t.kind = .ident then parse named
    else if t.kind ∈ Kind.exprStart then
      let e ← parse expr
      terminator
      pure (.expr e t.pos)
    else if t.kind = .keyword .if_ then
      let b ← parse branch
      pure (.branch b)
    else if t.kind = .keyword .return_ then parse ret
    else if t.kind = .keyword .fn then
      let f ← parse function
      pure (.function f t.pos)
    else if t.kind = .op .lineEnd then
      let _ ← expect (.op .lineEnd)
      pure (.empty t.pos)
    else reject "statement" t "statement"
  | _, named => do
    let t ← peek
    let after ← peekAhead
    if after.kind = .op .assign then
      let target ← expect .ident
      let _ ← expect (.op .assign)
      let e ← parse expr
      terminator
      pure (.assign target e target.pos)
    else
      let e ← parse expr
      terminator
      pure (.expr e t.pos)
  | _, ret => do
    let keyword ← expect (.keyword .return_)
    if ← at? [.op .lineEnd, .op .rbrace, .eof] then
      terminator
      pure (.ret none keyword.pos)
    else
      let e ← parse expr
      terminator
      pure (.ret (some e) keyword.pos)
  | _, branch => do
    let keyword ← expect (.keyword .if_)
    let first ← parse (clause keyword)
    parse terminators
    let others ← parse clauses
    if ← at? [.keyword .else_] then
      let _ ← expect (.keyword .else_)
      let s ← parse statement
      pure ⟨first, others, some s, keyword.pos⟩
    else pure ⟨first, others, none, keyword.pos⟩
  | _, clauses => do
    if ← at? [.keyword .elif] then
      let keyword ← expect (.keyword .elif)
      let c ← parse (clause keyword)
      parse terminators
      let cs ← parse clauses
      pure (c :: cs)
    else pure []
  | _, clause keyword => do
    let condition ← parse disjunction
    let body ← parse statement
    pure ⟨condition, body, keyword.pos⟩
  -- Arithmetic
  | _, expr => do
    let e ← parse term
    parse (exprTail e)
  | _, exprTail left => chain Operator.additive .anyOp term exprTail left
  | _, term => do
    let e ← parse power
    parse (termTail e)
  | _, termTail left => chain Operator.multiplicative .anyOp power termTail left
  | _, power => do
    let left ← parse factor
    let t ← peek
    if t.kind = .op .pow then
      let right ← parse factor
      pure (.binary t left right left.pos)
    else pure left
  | _, factor => do
    let t ← peek
    if t.kind = .number then
      let _ ← expect .number
      pure (.leaf .number t.value t.pos)
    else if t.kind = .string then
      let _ ← expect .string
      pure (.leaf .string t.value t.pos)
    else if t.kind = .bool then
      let _ ← expect .bool
      pure (.leaf .bool t.value t.pos)
    else if t.kind = .ident then parse name
    else if t.kind = .op .lparen then
      let _ ← expect (.op .lparen)
      let e ← parse expr
      let _ ← expect (.op .rparen)
      pure (.group e t.pos)
    else if t.kind = .op .pow then
      let _ ← expect (.op .pow)
      parse power
    else if t.kind = .op .pos ∨ t.kind = .op .neg then
      let sign ← expect t.kind
      let operand ← parse factor
      pure (.unary sign operand sign.pos)
    else if t.kind = .eof then pure (.leaf .none .absent t.pos)
    else reject "factor" t "NUMBER, IDENT or LPAREN"
  | _, name => do
    let after ← peekAhead
    if after.kind = .op .lparen then
      let c ← parse call
      pure (.call c c.pos)
    else
      let n ← expect .ident
      pure (.leaf .symbol n.value n.pos)
  | _, call => do
    let n ← expect .ident
    let t ← peek
    let as ← parse (args t.pos)
    pure ⟨n, as, n.pos⟩
  | _, args pos => do
    let _ ← expect (.op .lparen)
    let es ← parse items
    let _ ← expect (.op .rparen)
    pure ⟨es, pos⟩
  | _, items => do
    if ← at? [.op .rparen] then pure []
    else
      let e ← parse expr
      if ← at? [.op .comma] then
        let _ ← expect (.op .comma)
        separator "arg_list" Kind.exprStart "expression"
        let es ← parse items
        pure (e :: es)
      else pure [e]
  -- Conditions
  | _, disjunction => do
    let e ← parse conjunction
    parse (disjunctionTail e)
  | _, disjunctionTail left => chain [.or] (.op .or) conjunction disjunctionTail left
  | _, conjunction => do
    let e ← parse negation
    parse (conjunctionTail e)
  | _, conjunctionTail left => chain [.and] (.op .and) negation conjunctionTail left
  | _, negation => do
    if ← at? [.op .not] then
      let op ← expect (.op .not)
      let e ← parse negation
      pure (.unary op e op.pos)
    else parse comparison
  | _, comparison => do
    let e ← parse comparand
    parse (comparisonTail e)
  | _, comparisonTail left => chain Operator.relational .anyOp comparand comparisonTail left
  | _, comparand => do
    let t ← peek
    if t.kind = .bool then
      let _ ← expect .bool
      pure (.leaf .bool t.value t.pos)
    else if t.kind = .op .not then
      let op ← expect (.op .not)
      let e ← parse comparison
      pure (.unary op e op.pos)
    else if t.kind = .op .lparen then
      let _ ← expect (.op .lparen)
      let e ← parse disjunction
      let _ ← expect (.op .rparen)
      pure (.group e t.pos)
    else if t.kind ∈ Kind.exprStart then parse expr
    else reject "relational_factor" t "value or LPAREN"

end Rule

end Quill
