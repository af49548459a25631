import Quill.Tree.Basic

/-!
# Equality of trees

Two trees are the same if they are built alike from the same tokens and values, whatever their
positions. Tokens are compared by `Token.same`, so an operator counts by its kind alone.

Where a tree is compared with itself, an item of a list stands on both sides and is not looked into
(`Node.sameItself`). So a tree agrees with itself unless a NaN stands in it outside every list.
-/

namespace Quill

/-- Whether two lists of tokens agree one by one. -/
def sameTokens : List Token → List Token → Bool
  | [], [] => true
  | s :: ss, t :: ts => s.same t && sameTokens ss ts
  | _, _ => false

mutual

/-- Whether two expressions agree. -/
def Expr.same : Expr → Expr → Bool
  | .leaf k v _, .leaf k' v' _ => k = k' && v.same v'
  | .call c _, .call c' _ => c.same c'
  | .group e _, .group e' _ => e.same e'
  | .binary op l r _, .binary op' l' r' _ => op.same op' && l.same l' && r.same r'
  | .unary op e _, .unary op' e' _ => op.same op' && e.same e'
  | _, _ => false

/-- Whether two calls agree. -/
def Call.same : Call → Call → Bool
  | ⟨name, args, _⟩, ⟨name', args', _⟩ => name.same name' && args.same args'

/-- Whether two argument lists agree. -/
def Args.same : Args → Args → Bool
  | ⟨items, _⟩, ⟨items', _⟩ => sameExprs items items'

/-- Whether two lists of expressions agree one by one. -/
def sameExprs : List Expr → List Expr → Bool
  | [], [] => true
  | e :: es, e' :: es' => e.same e' && sameExprs es es'
  | _, _ => false

end

/-- Whether two parameter lists agree. -/
def Params.same (p q : Params) : Bool := sameTokens p.names q.names

/-- Whether two optional expressions agree. -/
def sameValue : Option Expr → Option Expr → Bool
  | none, none => true
  | some e, some e' => e.same e'
  | _, _ => false

mutual

/-- Whether two statements agree. -/
def Statement.same : Statement → Statement → Bool
  | .scope s, .scope s' => s.same s'
  | .expr e _, .expr e' _ => e.same e'
  | .assign t e _, .assign t' e' _ => t.same t' && e.same e'
  | .ret e _, .ret e' _ => sameValue e e'
  | .branch b, .branch b' => b.same b'
  | .function f _, .function f' _ => f.same f'
  | .empty _, .empty _ => true
  | _, _ => false

/-- Whether two scopes agree. -/
def Scope.same : Scope → Scope → Bool
  | ⟨ss, _⟩, ⟨ss', _⟩ => sameStatements ss ss'

/-- Whether two lists of statements agree one by one. -/
def sameStatements : List Statement → List Statement → Bool
  | [], [] => true
  | s :: ss, s' :: ss' => s.same s' && sameStatements ss ss'
  | _, _ => false

/-- Whether two clauses agree. -/
def Clause.same : Clause → Clause → Bool
  | ⟨c, s, _⟩, ⟨c', s', _⟩ => c.same c' && s.same s'

/-- Whether two lists of clauses agree one by one. -/
def sameClauses : List Clause → List Clause → Bool
  | [], [] => true
  | c :: cs, c' :: cs' => c.same c' && sameClauses cs cs'
  | _, _ => false

/-- Whether two chains of conditions agree. -/
def Branch.same : Branch → Branch → Bool
  | ⟨c, cs, s, _⟩, ⟨c', cs', s', _⟩ => c.same c' && sameClauses cs cs' && sameOtherwise s s'

/-- Whether two optional statements agree. -/
def sameOtherwise : Option Statement → Option Statement → Bool
  | none, none => true
  | some s, some s' => s.same s'
  | _, _ => false

/-- Whether two functions agree. -/
def Function.same : Function → Function → Bool
  | ⟨name, params, body, _⟩, ⟨name', params', body', _⟩ =>
    name.same name' && params.same params' && body.same body'

end

/-- Whether two lists of functions agree one by one. -/
def sameFunctions : List Function → List Function → Bool
  | [], [] => true
  | f :: fs, f' :: fs' => f.same f' && sameFunctions fs fs'
  | _, _ => false

/-- Whether two programs agree. -/
def Program.same (p q : Program) : Bool := sameFunctions p.functions q.functions

/-- Whether two trees are of one sort and agree. -/
def Node.same : Node → Node → Bool
  | .expr e, .expr e' => e.same e'
  | .call c, .call c' => c.same c'
  | .args a, .args a' => a.same a'
  | .params p, .params p' => p.same p'
  | .statement s, .statement s' => s.same s'
  | .clause c, .clause c' => c.same c'
  | .function f, .function f' => f.same f'
  | .program p, .program p' => p.same p'
  | _, _ => false

/-! ## A tree and itself -/

/-- Whether an expression agrees with itself. -/
def Expr.sameItself : Expr → Bool
  | .leaf _ v _ => v.same v
  | .call c _ => c.name.same c.name
  | .group e _ => e.sameItself
  | .binary op l r _ => op.same op && l.sameItself && r.sameItself
  | .unary op e _ => op.same op && e.sameItself

mutual

/-- Whether a statement agrees with itself. -/
def Statement.sameItself : Statement → Bool
  | .scope _ => true
  | .expr e _ => e.sameItself
  | .assign t e _ => t.same t && e.sameItself
  | .ret e _ => e.all Expr.sameItself
  | .branch b => b.sameItself
  | .function f _ => f.name.same f.name
  | .empty _ => true

/-- Whether a clause agrees with itself. -/
def Clause.sameItself : Clause → Bool
  | ⟨c, s, _⟩ => c.sameItself && s.sameItself

/-- Whether a chain of conditions agrees with itself. -/
def Branch.sameItself : Branch → Bool
  | ⟨c, _, s, _⟩ => c.sameItself && otherwiseSameItself s

/-- Whether an optional statement agrees with itself. -/
def otherwiseSameItself : Option Statement → Bool
  | none => true
  | some s => s.sameItself

end

/-- Whether a tree agrees with itself. -/
def Node.sameItself : Node → Bool
  | .expr e => e.sameItself
  | .call c => c.name.same c.name
  | .args _ | .params _ | .program _ => true
  | .statement s => s.sameItself
  | .clause c => c.sameItself
  | .function f => f.name.same f.name

/-- Which of some trees agree with which, a row for each tree. -/
def Node.agreement (ns : List Node) : List (List Bool) :=
  ns.zipIdx.map fun (a, i) => ns.zipIdx.map fun (b, j) =>
    if i = j then a.sameItself else a.same b

/-- An expression that agrees item by item with itself agrees with itself. -/
theorem Expr.sameItself_of_same : ∀ {e : Expr}, e.same e = true → e.sameItself = true
  | .leaf _ _ _, h => by simpa [Expr.same, Expr.sameItself] using h
  | .call ⟨_, _, _⟩ _, h => by
    simp only [Expr.same, Call.same, Bool.and_eq_true] at h
    exact h.1
  | .group e _, h => by
    rw [Expr.same] at h
    exact Expr.sameItself_of_same (e := e) h
  | .binary .., h => by
    simp only [Expr.same, Bool.and_eq_true] at h
    simp [Expr.sameItself, h.1.1, Expr.sameItself_of_same h.1.2, Expr.sameItself_of_same h.2]
  | .unary .., h => by
    simp only [Expr.same, Bool.and_eq_true] at h
    simp [Expr.sameItself, h.1, Expr.sameItself_of_same h.2]

mutual

/-- A statement that agrees item by item with itself agrees with itself. -/
theorem Statement.sameItself_of_same :
    ∀ {s : Statement}, s.same s = true → s.sameItself = true
  | .scope _, _ => rfl
  | .expr .., h => Expr.sameItself_of_same (by simpa only [Statement.same] using h)
  | .assign .., h => by
    simp only [Statement.same, Bool.and_eq_true] at h
    simp [Statement.sameItself, h.1, Expr.sameItself_of_same h.2]
  | .ret none _, _ => rfl
  | .ret (some _) _, h =>
    Expr.sameItself_of_same (by simpa only [Statement.same, sameValue] using h)
  | .branch b, h => by
    rw [Statement.sameItself]
    exact Branch.sameItself_of_same (by simpa only [Statement.same] using h)
  | .function ⟨_, _, _, _⟩ _, h => by
    simp only [Statement.same, Function.same, Bool.and_eq_true] at h
    exact h.1.1
  | .empty _, _ => rfl

/-- A clause that agrees item by item with itself agrees with itself. -/
theorem Clause.sameItself_of_same : ∀ {c : Clause}, c.same c = true → c.sameItself = true
  | ⟨_, _, _⟩, h => by
    simp only [Clause.same, Bool.and_eq_true] at h
    simp [Clause.sameItself, Expr.sameItself_of_same h.1, Statement.sameItself_of_same h.2]

/-- A branch that agrees item by item with itself agrees with itself. -/
theorem Branch.sameItself_of_same : ∀ {b : Branch}, b.same b = true → b.sameItself = true
  | ⟨_, _, none, _⟩, h => by
    simp only [Branch.same, Bool.and_eq_true] at h
    simp [Branch.sameItself, otherwiseSameItself, Clause.sameItself_of_same h.1.1]
  | ⟨_, _, some _, _⟩, h => by
    simp only [Branch.same, sameOtherwise, Bool.and_eq_true] at h
    simp [Branch.sameItself, otherwiseSameItself, Clause.sameItself_of_same h.1.1,
      Statement.sameItself_of_same h.2]

end

/-- A tree that agrees item by item with itself agrees with itself. Only a NaN in a list tells the
two apart. -/
theorem Node.sameItself_of_same {n : Node} (h : n.same n = true) : n.sameItself = true := by
  cases n with
  | expr e => exact Expr.sameItself_of_same h
  | call c =>
    obtain ⟨_, _, _⟩ := c
    simp only [Node.same, Call.same, Bool.and_eq_true] at h
    exact h.1
  | args a => rfl
  | params p => rfl
  | statement s => exact Statement.sameItself_of_same h
  | clause c => exact Clause.sameItself_of_same h
  | function f =>
    obtain ⟨_, _, _, _⟩ := f
    simp only [Node.same, Function.same, Bool.and_eq_true] at h
    exact h.1.1
  | program p => rfl

end Quill
