import Quill.Proofs.Indifference
import Quill.Proofs.Parts

/-!
# What equality of trees is

Two trees are the same if nothing tells them apart but positions. To say so the positions are erased
(`Node.erased`): those of nodes and of tokens are put to nought, an operator is left with its kind
alone, and a zero loses its sign, since numbers are compared as numbers.

Both sides are taken apart one level at a time. What a node has of its own is its head, its value
and its tokens (`Node.head`, `Node.value`, `Node.tokens`), and two nodes are the same if they agree
in these and their children are the same one by one (`Node.same_iff`). Erased trees are equal in
just this way (`Node.erased_eq_iff`). So each statement about all trees is an induction on nodes
that looks at tokens and values alone. The results are put together in
`Node.same_up_to_positions`.
-/

namespace Quill

/-! ## Erasing positions -/

namespace Binary64

/-- The number, and for either zero the one that is not negative. -/
def unsignedZero : Binary64 → Binary64
  | signed s m => if m = .zero then ofMagnitude .zero else signed s m
  | nan => nan

/-- A number with a sign does not become the NaN. -/
theorem unsignedZero_ne_nan {s : Bool} {m : Magnitude} : (signed s m).unsignedZero ≠ nan := by
  rw [unsignedZero]
  split <;> nofun

/-- Numbers are the same if they are equal but for the sign of a zero. -/
theorem same_iff_unsignedZero {x y : Binary64} (hx : x ≠ nan) :
    x.same y = true ↔ x.unsignedZero = y.unsignedZero := by
  cases x with
  | nan => exact absurd rfl hx
  | signed s m =>
    cases y with
    | nan => exact ⟨nofun, fun h => absurd h unsignedZero_ne_nan⟩
    | signed t n =>
      rw [same, decide_eq_true_eq]
      by_cases hm : m = .zero
      · by_cases hn : n = .zero <;> simp [unsignedZero, ofMagnitude, hm, hn, eq_comm]
      · by_cases hn : n = .zero <;> simp [unsignedZero, ofMagnitude, hm, hn, and_comm]

end Binary64

/-- The value, where a zero has no sign. -/
def Value.erased : Value → Value
  | number x => .number x.unsignedZero
  | v => v

/-- The token without its place, and an operator without its spelling. -/
def Token.erased (t : Token) : Token :=
  ⟨t.kind, if t.isOperator then .absent else t.value.erased, ⟨0, 0, 0⟩⟩

mutual

/-- The expression without positions. -/
def Expr.erased : Expr → Expr
  | .leaf k v _ => .leaf k v.erased 0
  | .call c _ => .call c.erased 0
  | .group e _ => .group e.erased 0
  | .binary op l r _ => .binary op.erased l.erased r.erased 0
  | .unary op e _ => .unary op.erased e.erased 0

/-- The call without positions. -/
def Call.erased : Call → Call
  | ⟨name, args, _⟩ => ⟨name.erased, args.erased, 0⟩

/-- The arguments without positions. -/
def Args.erased : Args → Args
  | ⟨items, _⟩ => ⟨erasedExprs items, 0⟩

/-- The expressions without positions. -/
def erasedExprs : List Expr → List Expr
  | [] => []
  | e :: es => e.erased :: erasedExprs es

end

/-- The parameters without positions. -/
def Params.erased (p : Params) : Params := ⟨p.names.map Token.erased, 0⟩

mutual

/-- The statement without positions. -/
def Statement.erased : Statement → Statement
  | .scope b => .scope b.erased
  | .expr e _ => .expr e.erased 0
  | .assign t e _ => .assign t.erased e.erased 0
  | .ret e _ => .ret (e.map Expr.erased) 0
  | .branch b => .branch b.erased
  | .function f _ => .function f.erased 0
  | .empty _ => .empty 0

/-- The scope without positions. -/
def Scope.erased : Scope → Scope
  | ⟨statements, _⟩ => ⟨erasedStatements statements, 0⟩

/-- The statements without positions. -/
def erasedStatements : List Statement → List Statement
  | [] => []
  | s :: ss => s.erased :: erasedStatements ss

/-- The clause without positions. -/
def Clause.erased : Clause → Clause
  | ⟨condition, body, _⟩ => ⟨condition.erased, body.erased, 0⟩

/-- The clauses without positions. -/
def erasedClauses : List Clause → List Clause
  | [] => []
  | c :: cs => c.erased :: erasedClauses cs

/-- The chain of conditions without positions. -/
def Branch.erased : Branch → Branch
  | ⟨first, others, otherwise, _⟩ =>
    ⟨first.erased, erasedClauses others, erasedOtherwise otherwise, 0⟩

/-- The statement without positions, if there is one. -/
def erasedOtherwise : Option Statement → Option Statement
  | none => none
  | some s => some s.erased

/-- The function without positions. -/
def Function.erased : Function → Function
  | ⟨name, params, body, _⟩ => ⟨name.erased, params.erased, body.erased, 0⟩

end

/-- The tree without positions. -/
def Node.erased : Node → Node
  | .expr e => .expr e.erased
  | .call c => .call c.erased
  | .args a => .args a.erased
  | .params p => .params p.erased
  | .statement s => .statement s.erased
  | .clause c => .clause c.erased
  | .function f => .function f.erased
  | .program p => .program ⟨p.functions.map Function.erased, 0⟩

/-- What is done to a list item by item is done to all its items. -/
theorem eq_map_of_cons {α β : Type} {f : α → β} {g : List α → List β} (nil : g [] = [])
    (cons : ∀ a as, g (a :: as) = f a :: g as) (as : List α) : g as = as.map f := by
  induction as with
  | nil => exact nil
  | cons a as ih => rw [cons, ih, List.map_cons]

/-- A list of expressions is erased one by one. -/
theorem erasedExprs_eq (es : List Expr) : erasedExprs es = es.map Expr.erased :=
  eq_map_of_cons rfl (fun _ _ => rfl) es

/-- A list of statements is erased one by one. -/
theorem erasedStatements_eq (ss : List Statement) :
    erasedStatements ss = ss.map Statement.erased :=
  eq_map_of_cons rfl (fun _ _ => rfl) ss

/-- A list of clauses is erased one by one. -/
theorem erasedClauses_eq (cs : List Clause) : erasedClauses cs = cs.map Clause.erased :=
  eq_map_of_cons rfl (fun _ _ => rfl) cs

/-- The last branch, if there is one, is erased as a statement. -/
theorem erasedOtherwise_eq (s : Option Statement) : erasedOtherwise s = s.map Statement.erased := by
  cases s <;> rfl

/-! ## One level -/

/-- What an expression is, apart from what it holds. -/
inductive ExprHead where
  | leaf (kind : LeafKind)
  | call | group | binary | unary
  deriving DecidableEq

/-- What a statement is, apart from what it holds. -/
inductive StatementHead where
  | scope | expr | assign | ret
  /-- Closed or not by a statement that is executed if no condition holds. -/
  | branch (closed : Bool)
  | function | empty
  deriving DecidableEq

/-- What a node is, apart from what it holds. -/
inductive NodeHead where
  | expr (head : ExprHead)
  | call | args | params
  | statement (head : StatementHead)
  | clause | function | program
  deriving DecidableEq

/-- What the expression is, apart from what it holds. -/
def Expr.head : Expr → ExprHead
  | .leaf k _ _ => .leaf k
  | .call .. => .call
  | .group .. => .group
  | .binary .. => .binary
  | .unary .. => .unary

/-- What the statement is, apart from what it holds. -/
def Statement.head : Statement → StatementHead
  | .scope _ => .scope
  | .expr .. => .expr
  | .assign .. => .assign
  | .ret .. => .ret
  | .branch b => .branch b.otherwise.isSome
  | .function .. => .function
  | .empty _ => .empty

namespace Node

/-- What the node is, apart from what it holds. -/
def head : Node → NodeHead
  | expr e => .expr e.head
  | call _ => .call
  | args _ => .args
  | params _ => .params
  | statement s => .statement s.head
  | clause _ => .clause
  | function _ => .function
  | program _ => .program

/-- The value that the node itself carries. -/
def value : Node → Value
  | expr (.leaf _ v _) => v
  | _ => .absent

/-- The tokens that the node itself carries. -/
def tokens : Node → List Token
  | expr (.binary op _ _ _) | expr (.unary op _ _) => [op]
  | call c => [c.name]
  | params p => p.names
  | statement (.assign t _ _) => [t]
  | function f => [f.name]
  | _ => []

/-- Whether two nodes agree in what they have of their own. -/
def Alike (a b : Node) : Prop :=
  a.head = b.head ∧ a.value.same b.value = true ∧
    List.Forall₂ (fun s t : Token => s.same t = true) a.tokens b.tokens

end Node

/-- Lists that are compared item by item are the same if their items are the same one by one. -/
theorem iff_forall₂_of_cons {α : Type} {same : α → α → Bool} {sames : List α → List α → Bool}
    (nil : sames [] [] = true) (left : ∀ a as, sames (a :: as) [] = false)
    (right : ∀ b bs, sames [] (b :: bs) = false)
    (cons : ∀ a as b bs, sames (a :: as) (b :: bs) = (same a b && sames as bs))
    {as bs : List α} :
    sames as bs = true ↔ List.Forall₂ (fun a b => same a b = true) as bs := by
  induction as generalizing bs with
  | nil =>
    cases bs with
    | nil => simp [nil]
    | cons b bs => simp [right]
  | cons a as ih =>
    cases bs with
    | nil => simp [left]
    | cons b bs => simp [cons, ih]

/-- Lists of tokens are the same one by one. -/
theorem sameTokens_iff {ss ts : List Token} :
    sameTokens ss ts = true ↔ List.Forall₂ (fun s t => s.same t = true) ss ts :=
  iff_forall₂_of_cons rfl (fun _ _ => rfl) (fun _ _ => rfl) fun _ _ _ _ => rfl

/-- Lists of expressions are the same one by one. -/
theorem sameExprs_iff {es es' : List Expr} :
    sameExprs es es' = true ↔ List.Forall₂ (fun e e' => e.same e' = true) es es' :=
  iff_forall₂_of_cons (by rw [sameExprs]) (fun _ _ => by simp [sameExprs])
    (fun _ _ => by simp [sameExprs]) fun _ _ _ _ => by rw [sameExprs]

/-- Lists of statements are the same one by one. -/
theorem sameStatements_iff {ss ss' : List Statement} :
    sameStatements ss ss' = true ↔ List.Forall₂ (fun s s' => s.same s' = true) ss ss' :=
  iff_forall₂_of_cons (by rw [sameStatements]) (fun _ _ => by simp [sameStatements])
    (fun _ _ => by simp [sameStatements]) fun _ _ _ _ => by rw [sameStatements]

/-- Lists of clauses are the same one by one. -/
theorem sameClauses_iff {cs cs' : List Clause} :
    sameClauses cs cs' = true ↔ List.Forall₂ (fun c c' => c.same c' = true) cs cs' :=
  iff_forall₂_of_cons (by rw [sameClauses]) (fun _ _ => by simp [sameClauses])
    (fun _ _ => by simp [sameClauses]) fun _ _ _ _ => by rw [sameClauses]

/-- Lists of functions are the same one by one. -/
theorem sameFunctions_iff {fs fs' : List Function} :
    sameFunctions fs fs' = true ↔ List.Forall₂ (fun f f' => f.same f' = true) fs fs' :=
  iff_forall₂_of_cons rfl (fun _ _ => rfl) (fun _ _ => rfl) fun _ _ _ _ => rfl

/-- What is returned is the same if it is as a list of at most one expression. -/
theorem sameValue_iff {v w : Option Expr} :
    sameValue v w = true ↔ List.Forall₂ (fun e e' => e.same e' = true) v.toList w.toList := by
  cases v <;> cases w <;> simp [sameValue]

/-- Lists with one more element each are related if the lists and the elements are. -/
theorem forall₂_concat_iff {α : Type} {R : α → α → Prop} {as bs : List α} {a b : α} :
    List.Forall₂ R (as ++ [a]) (bs ++ [b]) ↔ List.Forall₂ R as bs ∧ R a b := by
  rw [← List.forall₂_reverse_iff, List.reverse_concat, List.reverse_concat, List.forall₂_cons,
    List.forall₂_reverse_iff, and_comm]

namespace Node

/-- Nodes are the same one by one. -/
abbrev Same (as bs : List Node) : Prop := List.Forall₂ (fun a b => a.same b = true) as bs

/-- Lists of nodes of one form are the same one by one. -/
theorem same_map {α : Type} {f : α → Node} {as bs : List α} :
    Same (as.map f) (bs.map f) ↔ List.Forall₂ (fun a b => (f a).same (f b) = true) as bs := by
  rw [Same, List.forall₂_map_left_iff, List.forall₂_map_right_iff]

section
variable {e e' : Expr} {s s' : Statement} {c c' : Clause} {f f' : Function} {k k' : Call}
  {a a' : Args} {p p' : Params}

@[simp] theorem same_expr : (expr e).same (expr e') = e.same e' := rfl

@[simp] theorem same_call : (call k).same (call k') = k.same k' := rfl

@[simp] theorem same_args : (args a).same (args a') = a.same a' := rfl

@[simp] theorem same_params : (params p).same (params p') = p.same p' := rfl

@[simp] theorem same_statement : (statement s).same (statement s') = s.same s' := rfl

@[simp] theorem same_clause : (clause c).same (clause c') = c.same c' := rfl

@[simp] theorem same_function : (function f).same (function f') = f.same f' := rfl

end

/-- Expressions are the same if they are alike and have the same parts. -/
theorem same_expr_iff (e e' : Expr) : e.same e' = true ↔
    (expr e).Alike (expr e') ∧ Same (expr e).children (expr e').children := by
  cases e <;> cases e' <;>
    simp [Expr.same, Alike, head, Expr.head, value, tokens, children, Value.same,
      and_assoc]

/-- Scopes are the same if their statements are. -/
theorem same_scope_iff (b b' : Scope) : b.same b' = true ↔
    Same (b.statements.map statement) (b'.statements.map statement) := by
  obtain ⟨statements, pos⟩ := b
  obtain ⟨statements', pos'⟩ := b'
  rw [same_map, Scope.same]
  exact sameStatements_iff

/-- Branches are the same if both have a last branch or neither, and their parts are the same. -/
theorem same_branch_iff (b b' : Branch) : b.same b' = true ↔
    b.otherwise.isSome = b'.otherwise.isSome ∧
      Same (statement (.branch b)).children (statement (.branch b')).children := by
  obtain ⟨first, others, otherwise, pos⟩ := b
  obtain ⟨first', others', otherwise', pos'⟩ := b'
  have clauses : sameClauses others others' = true ↔
      Same (others.map clause) (others'.map clause) := by
    rw [same_map]
    exact sameClauses_iff
  cases otherwise with
  | none =>
    cases otherwise' with
    | none => simp [Branch.same, sameOtherwise, children, clauses]
    | some s' => simp [Branch.same, sameOtherwise]
  | some s =>
    cases otherwise' with
    | none => simp [Branch.same, sameOtherwise]
    | some s' =>
      simp [Branch.same, sameOtherwise, children, clauses, forall₂_concat_iff, and_assoc]

/-- Statements are the same if they are alike and have the same parts. -/
theorem same_statement_iff (s s' : Statement) : s.same s' = true ↔
    (statement s).Alike (statement s') ∧ Same (statement s).children (statement s').children := by
  cases s <;> cases s' <;>
    simp [Statement.same, same_scope_iff, same_branch_iff, sameValue_iff, Alike, head,
      Statement.head, value, tokens, children, Value.same]

/-- Two nodes are the same if they agree in what they have of their own and their children are the
same one by one. -/
theorem same_iff {a b : Node} : a.same b = true ↔ a.Alike b ∧ Same a.children b.children := by
  cases a with
  | expr e =>
    cases b with
    | expr e' => exact same_expr_iff e e'
    | _ => simp [Node.same, Alike, head]
  | statement s =>
    cases b with
    | statement s' => exact same_statement_iff s s'
    | _ => simp [Node.same, Alike, head]
  | call c =>
    cases b with
    | call c' =>
      obtain ⟨name, args, pos⟩ := c
      obtain ⟨name', args', pos'⟩ := c'
      simp [Call.same, Alike, head, value, tokens, children, Value.same]
    | _ => simp [Node.same, Alike, head]
  | args x =>
    cases b with
    | args y =>
      obtain ⟨items, pos⟩ := x
      obtain ⟨items', pos'⟩ := y
      simp [Args.same, sameExprs_iff, Alike, head, value, tokens, children, Value.same]
    | _ => simp [Node.same, Alike, head]
  | params x =>
    cases b with
    | params y =>
      simp [Params.same, sameTokens_iff, Alike, head, value, tokens, children,
        Value.same]
    | _ => simp [Node.same, Alike, head]
  | clause c =>
    cases b with
    | clause c' =>
      obtain ⟨condition, body, pos⟩ := c
      obtain ⟨condition', body', pos'⟩ := c'
      simp [Clause.same, Alike, head, value, tokens, children, Value.same]
    | _ => simp [Node.same, Alike, head]
  | function f =>
    cases b with
    | function f' =>
      obtain ⟨name, params, body, pos⟩ := f
      obtain ⟨name', params', body', pos'⟩ := f'
      simp [Function.same, Statement.same, Alike, head, value, tokens, children, Value.same,
        and_assoc]
    | _ => simp [Node.same, Alike, head]
  | program x =>
    cases b with
    | program y =>
      simp [Node.same, Program.same, sameFunctions_iff, Alike, head, value, tokens, children,
        Value.same]
    | _ => simp [Node.same, Alike, head]

/-- Whether two nodes agree in what they have of their own when positions are erased. -/
def AlikeErased (a b : Node) : Prop :=
  a.head = b.head ∧ a.value.erased = b.value.erased ∧
    List.Forall₂ (fun s t : Token => s.erased = t.erased) a.tokens b.tokens

/-- Erased nodes are equal one by one. -/
abbrev SameErased (as bs : List Node) : Prop :=
  List.Forall₂ (fun a b => a.erased = b.erased) as bs

/-- Lists are mapped to the same if they are one by one. -/
theorem map_eq_map_iff {α β : Type} {f : α → β} {as bs : List α} :
    as.map f = bs.map f ↔ List.Forall₂ (fun a b => f a = f b) as bs := by
  rw [← List.forall₂_eq_eq_eq, List.forall₂_map_left_iff, List.forall₂_map_right_iff]

/-- Optional values are mapped to the same if they are as lists of at most one element. -/
theorem optionMap_eq_iff {α β : Type} {f : α → β} {v w : Option α} :
    v.map f = w.map f ↔ List.Forall₂ (fun a b => f a = f b) v.toList w.toList := by
  cases v <;> cases w <;> simp

/-- Expressions are erased to the same if they are alike and their parts are erased to the same. -/
theorem erased_expr_iff (e e' : Expr) : e.erased = e'.erased ↔
    (expr e).AlikeErased (expr e') ∧ SameErased (expr e).children (expr e').children := by
  cases e <;> cases e' <;>
    simp [Expr.erased, AlikeErased, head, Expr.head, value, tokens, children, Value.erased,
      Node.erased]

/-- Scopes are erased to the same if their statements are. -/
theorem erased_scope_iff (b b' : Scope) : b.erased = b'.erased ↔
    SameErased (b.statements.map statement) (b'.statements.map statement) := by
  obtain ⟨statements, pos⟩ := b
  obtain ⟨statements', pos'⟩ := b'
  simp [Scope.erased, erasedStatements_eq, Node.erased, map_eq_map_iff]

/-- Branches are erased to the same if both have a last branch or neither, and their parts are
erased to the same. -/
theorem erased_branch_iff (b b' : Branch) : b.erased = b'.erased ↔
    b.otherwise.isSome = b'.otherwise.isSome ∧
      SameErased (statement (.branch b)).children (statement (.branch b')).children := by
  obtain ⟨first, others, otherwise, pos⟩ := b
  obtain ⟨first', others', otherwise', pos'⟩ := b'
  cases otherwise <;> cases otherwise' <;>
    simp [Branch.erased, erasedOtherwise_eq, erasedClauses_eq, children, Node.erased,
      map_eq_map_iff, forall₂_concat_iff]

/-- Statements are erased to the same if they are alike and their parts are erased to the same. -/
theorem erased_statement_iff (s s' : Statement) : s.erased = s'.erased ↔
    (statement s).AlikeErased (statement s') ∧
      SameErased (statement s).children (statement s').children := by
  cases s <;> cases s' <;>
    simp [Statement.erased, erased_scope_iff, erased_branch_iff, optionMap_eq_iff, AlikeErased,
      head, Statement.head, value, tokens, children, Value.erased, Node.erased]

/-- Erased nodes are equal if they agree in what they have of their own and their erased children
are equal one by one. -/
theorem erased_eq_iff {a b : Node} :
    a.erased = b.erased ↔ a.AlikeErased b ∧ SameErased a.children b.children := by
  cases a with
  | expr e =>
    cases b with
    | expr e' => exact expr.injEq .. ▸ erased_expr_iff e e'
    | _ => simp [Node.erased, AlikeErased, head]
  | statement s =>
    cases b with
    | statement s' => exact statement.injEq .. ▸ erased_statement_iff s s'
    | _ => simp [Node.erased, AlikeErased, head]
  | call c =>
    cases b with
    | call c' =>
      obtain ⟨name, args, pos⟩ := c
      obtain ⟨name', args', pos'⟩ := c'
      simp [Node.erased, Call.erased, AlikeErased, head, value, tokens, children, Value.erased]
    | _ => simp [Node.erased, AlikeErased, head]
  | args x =>
    cases b with
    | args y =>
      obtain ⟨items, pos⟩ := x
      obtain ⟨items', pos'⟩ := y
      simp [Node.erased, Args.erased, erasedExprs_eq, map_eq_map_iff, AlikeErased, head, value,
        tokens, children, Value.erased]
    | _ => simp [Node.erased, AlikeErased, head]
  | params x =>
    cases b with
    | params y =>
      simp [Node.erased, Params.erased, map_eq_map_iff, AlikeErased, head, value, tokens, children,
        Value.erased]
    | _ => simp [Node.erased, AlikeErased, head]
  | clause c =>
    cases b with
    | clause c' =>
      obtain ⟨condition, body, pos⟩ := c
      obtain ⟨condition', body', pos'⟩ := c'
      simp [Node.erased, Clause.erased, AlikeErased, head, value, tokens, children, Value.erased]
    | _ => simp [Node.erased, AlikeErased, head]
  | function f =>
    cases b with
    | function f' =>
      obtain ⟨name, params, body, pos⟩ := f
      obtain ⟨name', params', body', pos'⟩ := f'
      simp [Node.erased, Function.erased, Statement.erased, AlikeErased, head, value, tokens,
        children, Value.erased]
    | _ => simp [Node.erased, AlikeErased, head]
  | program x =>
    cases b with
    | program y =>
      simp [Node.erased, map_eq_map_iff, AlikeErased, head, value, tokens, children, Value.erased]
    | _ => simp [Node.erased, AlikeErased, head]

end Node

/-! ## Tokens and values -/

/-- Whether a value can stand under a kind, of which it is known whether it is the one of truth
values: these stand nowhere else, and numbers do not stand there. A NaN stands nowhere. -/
def Value.Fits (truth : Prop) : Value → Prop
  | number x => ¬truth ∧ x ≠ .nan
  | bool _ => truth
  | text _ | absent => True

/-- Values that fit under the same kinds are the same if nothing tells them apart but the sign of a
zero. -/
theorem Value.same_iff_erased {v w : Value} {truth : Prop} (hv : v.Fits truth)
    (hw : w.Fits truth) : v.same w = true ↔ v.erased = w.erased := by
  cases v with
  | number x =>
    cases w with
    | number y => simpa [Value.same, Value.erased] using Binary64.same_iff_unsignedZero hv.2
    | bool b => exact absurd hw hv.1
    | text | absent => exact ⟨nofun, nofun⟩
  | bool b =>
    cases w with
    | number y => exact absurd hv hw.1
    | bool b' => simp [Value.same, Value.erased]
    | text | absent => exact ⟨nofun, nofun⟩
  | text s => cases w <;> simp [Value.same, Value.erased]
  | absent => cases w <;> simp [Value.same, Value.erased]

/-- A value that fits somewhere is the same as itself. -/
theorem Value.same_self {v : Value} {truth : Prop} (hv : v.Fits truth) : v.same v = true :=
  (same_iff_erased hv hv).2 rfl

/-- Numeric equality is symmetric. -/
theorem Binary64.same_comm (x y : Binary64) : x.same y = y.same x := by
  cases x with
  | nan => cases y <;> rfl
  | signed s m =>
    cases y with
    | nan => rfl
    | signed t n =>
      rw [same, same, decide_eq_decide]
      constructor
      · rintro ⟨rfl, h⟩
        exact ⟨rfl, h.imp_left Eq.symm⟩
      · rintro ⟨rfl, h⟩
        exact ⟨rfl, h.imp_left Eq.symm⟩

/-- Equality of values is symmetric. -/
theorem Value.same_comm (v w : Value) : v.same w = w.same v := by
  cases v <;> cases w <;> simp [Value.same, Binary64.same_comm, eq_comm]

namespace Token
variable {s t : Token}

/-- Whether the value fits the kind. The spelling of an operator is not looked at. -/
def Typed (t : Token) : Prop := t.isOperator = false → t.value.Fits (t.kind = .bool)

/-- The wildcard is the same as the operators and as nothing else. -/
theorem same_of_anyOp (hs : s.kind = .anyOp) : s.same t = t.isOperator := by
  have operator : s.isOperator = true := by rw [isOperator, hs]; rfl
  rw [same, operator, Bool.true_or, if_pos rfl, hasKind, if_pos (.inr hs), operator, Bool.true_and,
    isOperator]

/-- Equality of tokens is symmetric. -/
theorem same_comm (s t : Token) : s.same t = t.same s := by
  have kinds : s.hasKind t.kind = t.hasKind s.kind := by
    unfold hasKind
    by_cases wildcard : t.kind = .anyOp ∨ s.kind = .anyOp
    · rw [if_pos wildcard, if_pos wildcard.symm, isOperator, isOperator, Bool.and_comm]
    · rw [if_neg wildcard, if_neg fun h => wildcard h.symm]
      exact decide_eq_decide.2 eq_comm
  rw [same, same, kinds, Bool.or_comm, Value.same_comm, decide_eq_decide.2 eq_comm]

/-- A typed token is the same as itself. -/
theorem Typed.same_self (ht : t.Typed) : t.same t = true := by
  rw [same, Bool.or_self]
  split
  · exact hasKind_of_eq rfl
  · rename_i no
    simp [Value.same_self (ht (Bool.eq_false_iff.2 no))]

/-- Tokens are the same if nothing tells them apart but their places, the spelling of an operator
and the sign of a zero. -/
theorem same_iff_erased (hs : s.Typed) (ht : t.Typed) (hs' : s.kind ≠ .anyOp)
    (ht' : t.kind ≠ .anyOp) : s.same t = true ↔ s.erased = t.erased := by
  constructor
  · intro h
    obtain ⟨kind, value⟩ := like_of_same hs' ht' h
    have operator : s.isOperator = t.isOperator := by rw [isOperator, isOperator, kind]
    by_cases no : s.isOperator = false
    · have values := (Value.same_iff_erased (hs no) (kind ▸ ht (operator ▸ no))).1 (value no)
      rw [erased, erased, kind, operator, values]
    · rw [Bool.not_eq_false] at no
      rw [erased, erased, kind, ← operator, if_pos no, if_pos no]
  · intro h
    obtain ⟨kind, value, -⟩ := Token.mk.inj h
    have operator : s.isOperator = t.isOperator := by rw [isOperator, isOperator, kind]
    rw [same, ← operator, Bool.or_self]
    split
    · exact hasKind_of_eq kind
    · rename_i no
      rw [← operator, if_neg no, if_neg no] at value
      rw [Bool.not_eq_true] at no
      simp [kind, (Value.same_iff_erased (hs no) (kind ▸ ht (operator ▸ no))).2 value]

end Token

/-! ## Trees -/

namespace Node
variable {a b c : Node}

/-- Whether all values and all tokens of the tree are of their types, and no NaN is among them. -/
def Typed (n : Node) : Prop :=
  n.Everywhere fun m => m.value.Fits (m.head = .expr (.leaf .bool)) ∧ ∀ t ∈ m.tokens, t.Typed

/-- Whether no token of the tree stands for all operators. -/
def NoWildcard (n : Node) : Prop := n.Everywhere fun m => ∀ t ∈ m.tokens, t.kind ≠ .anyOp

/-- The parts of a typed node are typed. -/
theorem Typed.child (ha : a.Typed) (hb : b ∈ a.children) : b.Typed :=
  fun m hm => ha m (.child hb hm)

/-- The parts of a node without the wildcard are without it. -/
theorem NoWildcard.child (ha : a.NoWildcard) (hb : b ∈ a.children) : b.NoWildcard :=
  fun m hm => ha m (.child hb hm)

/-- Lists are related in one way if they are in the other one, where their members are. -/
theorem forall₂_congr_of_mem {α : Type} {R S : α → α → Prop} {as bs : List α}
    (h : ∀ a ∈ as, ∀ b ∈ bs, R a b ↔ S a b) : List.Forall₂ R as bs ↔ List.Forall₂ S as bs := by
  induction as generalizing bs with
  | nil => cases bs <;> simp
  | cons a as ih =>
    cases bs with
    | nil => simp
    | cons b bs =>
      rw [List.forall₂_cons, List.forall₂_cons,
        h a List.mem_cons_self b List.mem_cons_self,
        ih fun x hx y hy => h x (List.mem_cons_of_mem _ hx) y (List.mem_cons_of_mem _ hy)]

/-- Trees are the same if their erased trees are equal. -/
theorem same_iff_erased_eq (ha : a.Typed) (hb : b.Typed) (ha' : a.NoWildcard)
    (hb' : b.NoWildcard) : a.same b = true ↔ a.erased = b.erased := by
  induction a using Node.induction generalizing b with
  | node a ih =>
    rw [same_iff, erased_eq_iff]
    refine and_congr (and_congr_right fun head => and_congr ?_ ?_) ?_
    · exact Value.same_iff_erased (ha a .refl).1 (head ▸ (hb b .refl).1)
    · exact forall₂_congr_of_mem fun s hs t ht =>
        Token.same_iff_erased ((ha a .refl).2 s hs) ((hb b .refl).2 t ht) (ha' a .refl s hs)
          (hb' b .refl t ht)
    · exact forall₂_congr_of_mem fun m hm n hn =>
        ih m hm (ha.child hm) (hb.child hn) (ha'.child hm) (hb'.child hn)

/-- A typed node is the same as itself. -/
theorem Typed.same_self (ha : a.Typed) : a.same a = true := by
  induction a using Node.induction with
  | node a ih =>
    obtain ⟨value, tokens⟩ := ha a .refl
    exact same_iff.2 ⟨⟨rfl, Value.same_self value,
      List.forall₂_same.2 fun t ht => (tokens t ht).same_self⟩,
      List.forall₂_same.2 fun m hm => ih m hm (ha.child hm)⟩

/-- Pairs that are turned around one by one are turned around as a whole. -/
theorem forall₂_comm {α : Type} {R : α → α → Prop} {as bs : List α}
    (h : ∀ a ∈ as, ∀ b ∈ bs, R a b ↔ R b a) : List.Forall₂ R as bs ↔ List.Forall₂ R bs as := by
  rw [forall₂_congr_of_mem h]
  exact ⟨.flip, .flip⟩

/-- Equality of nodes is symmetric. -/
theorem same_comm (a b : Node) : a.same b = b.same a := by
  -- The induction is on the first tree; the second one is taken apart as the first one is.
  rw [Bool.eq_iff_iff]
  induction a using Node.induction generalizing b with
  | node a ih =>
    rw [same_iff, same_iff]
    refine and_congr (and_congr eq_comm (and_congr ?_ ?_)) ?_
    · rw [Value.same_comm]
    · exact forall₂_comm fun s _ t _ => by rw [Token.same_comm]
    · exact forall₂_comm fun m hm n _ => ih m hm n

/-- Equality of trees is equality but for positions. On trees whose values are of their types and in
which no token stands for all operators, two are the same if they are equal when positions and the
spellings of operators are erased, so it is an equivalence. Where such tokens stand, a tree is still
the same as itself, and two are the same whichever comes first. All trees are compared one level at
a time, token by token, and a token that stands for all operators is the same as each of these and
as no other token. -/
theorem same_up_to_positions :
    (∀ a b : Node, a.Typed → b.Typed → a.NoWildcard → b.NoWildcard →
      (a.same b = true ↔ a.erased = b.erased)) ∧
    (∀ a b c : Node, a.Typed → b.Typed → c.Typed → a.NoWildcard → b.NoWildcard → c.NoWildcard →
      a.same b = true → b.same c = true → a.same c = true) ∧
    (∀ a : Node, a.Typed → a.same a = true ∧ a.sameItself = true) ∧
    (∀ a b : Node, a.same b = b.same a) ∧
    (∀ a b : Node, a.same b = true ↔ a.head = b.head ∧ a.value.same b.value = true ∧
      List.Forall₂ (fun s t : Token => s.same t = true) a.tokens b.tokens ∧
      List.Forall₂ (fun m n : Node => m.same n = true) a.children b.children) ∧
    ∀ s t : Token, s.kind = .anyOp → s.same t = t.isOperator ∧ t.same s = t.isOperator := by
  refine ⟨fun a b => same_iff_erased_eq, fun a b c ha hb hc ha' hb' hc' hab hbc => ?_,
    fun a ha => ⟨ha.same_self, sameItself_of_same ha.same_self⟩, same_comm, fun a b => ?_,
    fun s t hs => ⟨Token.same_of_anyOp hs, ?_⟩⟩
  · have left := (same_iff_erased_eq ha hb ha' hb').1 hab
    have right := (same_iff_erased_eq hb hc hb' hc').1 hbc
    exact (same_iff_erased_eq ha hc ha' hc').2 (left.trans right)
  · rw [same_iff, Alike, and_assoc, and_assoc]
  · rw [Token.same_comm, Token.same_of_anyOp hs]

/-- Two spellings of one operator, and the two zeros, are not told apart, and the wildcard is the
same as either operator. -/
theorem same_up_to_positions_zero :
    let zero (negative : Bool) : Expr := .leaf .number (.number (.signed negative .zero)) 0
    let op (k : Kind) (spelling : String) (pos : Int) : Token := ⟨k, .text spelling, ⟨pos, 1, 1⟩⟩
    let tree (t : Token) (negative : Bool) : Node :=
      .expr (.binary t (zero false) (zero negative) 7)
    (tree (op (.op .add) "+" 1) false).same (tree (op (.op .add) "plus" 4) true) = true ∧
    (tree (op .anyOp "?" 1) false).same (tree (op .anyOp "?" 1) false) = true ∧
    (op .anyOp "?" 0).same (op (.op .add) "+" 1) = true ∧
    (op (.op .sub) "-" 1).same (op .anyOp "?" 0) = true := by
  intro zero op tree
  have leaf (negative : Bool) : (expr (zero negative)).Typed :=
    everywhere_iff.2 ⟨⟨⟨by simp [zero, head, Expr.head], by simp⟩, List.forall_mem_nil _⟩, trivial⟩
  have typed (t : Token) (ht : t.isOperator = true) (negative : Bool) :
      (tree t negative).Typed := by
    refine everywhere_iff.2 ⟨⟨trivial, fun u hu no => ?_⟩, leaf false, leaf negative⟩
    obtain rfl := List.mem_singleton.1 hu
    cases ht.symm.trans no
  have plain (t : Token) (ht : t.kind ≠ .anyOp) (negative : Bool) :
      (tree t negative).NoWildcard := by
    have leaf (negative : Bool) : (expr (zero negative)).NoWildcard :=
      everywhere_iff.2 ⟨List.forall_mem_nil _, trivial⟩
    refine everywhere_iff.2 ⟨fun u hu => ?_, leaf false, leaf negative⟩
    obtain rfl := List.mem_singleton.1 hu
    exact ht
  obtain ⟨equal, -, itself, -, -, wildcard⟩ := same_up_to_positions
  refine ⟨?_, (itself _ (typed _ rfl _)).1, (wildcard _ _ rfl).1, (wildcard _ _ rfl).2⟩
  have add (spelling : String) (pos : Int) : (op (.op .add) spelling pos).kind ≠ .anyOp := nofun
  exact (equal _ _ (typed _ rfl _) (typed _ rfl _) (plain _ (add _ _) _)
    (plain _ (add _ _) _)).2 rfl

end Node

end Quill
