import Quill.Proofs.Parts
import Quill.Proofs.Precedence
import Quill.Proofs.WrittenProgram

/-!
# Parsed trees are well formed

In every tree that a text is parsed as, each part is well formed (`parse_wellFormed`): an `elif` or
`else` goes with the nearest branch that it can go with, no terminator is a statement of a block,
names are names, operators stand where they belong, and what is evaluated is arithmetic.

Which branch takes an `else` cannot be read off the trees that the rules come to. A statement that
ends in a branch without `else` has read on over the terminators to a token that goes on with no
branch (`Rule.Halts`), so no branch around it goes on there.
-/

namespace Quill

open TokenReader

/-! ## Well-formed nodes -/

/-- The operators before an operand. -/
def Operator.unary : List Operator := [pos, neg, not]

/-- Whether the expression is arithmetic, with no other operators anywhere in it. -/
def Expr.IsValue (e : Expr) : Prop := e.AtLevel .sum ∧ e.IsPure

/-- Whether a node is well formed, its children aside. -/
def Node.WellFormed : Node → Prop
  | .expr (.binary op _ _ _) => op.kind ∈ Operator.binary.map .op
  | .expr (.unary op _ _) => op.kind ∈ Operator.unary.map .op
  | .call c => c.name.kind = .ident ∧ ∀ e ∈ c.args.items, e.IsValue
  | .params p => ∀ n ∈ p.names, n.kind = .ident
  | .statement (.scope b) => ∀ a ∈ b.statements, ¬a.IsEmpty
  | .statement (.expr e _) => e.IsValue
  | .statement (.assign t e _) => t.kind = .ident ∧ e.IsValue
  | .statement (.ret e _) => ∀ v ∈ e, v.IsValue
  | .statement (.branch b) => ClausesClosed (b.first :: b.others) b.otherwise
  | .clause c => c.condition.AtTier .disjunction ∧ c.condition.Separated
  | .function f => f.name.kind = .ident
  | _ => True

/-- A terminator as a statement stands after a condition or an `else`. -/
theorem Node.WellFormed.of_empty {n : Node} (h : n.WellFormed) {pos : Int}
    (hc : Node.statement (.empty pos) ∈ n.children) :
    (∃ c, n = .clause c ∧ c.body = .empty pos) ∨
      ∃ b, n = .statement (.branch b) ∧ b.otherwise = some (.empty pos) := by
  cases n with
  | expr e => cases e <;> simp [children] at hc
  | call | args | params | function | program => simp [children] at hc
  | clause c =>
    have body : .empty pos = c.body := by simpa [children] using hc
    exact .inl ⟨c, rfl, body.symm⟩
  | statement a =>
    cases a with
    | scope b =>
      obtain ⟨a, ha, heq⟩ := List.mem_map.1 hc
      cases heq
      exact absurd trivial (h _ ha)
    | branch b =>
      have otherwise : b.otherwise = some (.empty pos) := by simpa [children] using hc
      exact .inr ⟨b, rfl, otherwise⟩
    | _ => simp [children] at hc

section
variable {σ : Type} [TokenReader σ] {s s₁ s₂ s₃ s' : σ}

/-! ## Where rules end -/

/-- Where none of some kinds is next none of fewer kinds is. -/
theorem NotAt.mono {kinds kinds' : List Kind} (h : NotAt kinds s) (hk : kinds' ⊆ kinds) :
    NotAt kinds' s :=
  fun t ht hm => h t ht (hk hm)

/-- The kinds with which a branch goes on, and the terminator, which is skipped before them. -/
def Kind.continuing : List Kind := [op .lineEnd, keyword .elif, keyword .else_]

/-- A rule that ends in an open branch has come to a token with which no branch goes on. -/
def Rule.Halts : {c : Category} → Rule c → σ → c.Tree → σ → Prop
  | _, terminators, _, _, s' => NotAt [.op .lineEnd] s'
  | _, statement, _, a, s' | _, named, _, a, s' | _, ret, _, a, s' =>
    a.EndsOpen → NotAt Kind.continuing s'
  | _, branch, _, b, s' => b.EndsOpen → NotAt Kind.continuing s'
  | _, clause _, _, c, s' => c.body.EndsOpen → NotAt Kind.continuing s'
  | _, clauses, s, _, s' => NotAt [.op .lineEnd] s → NotAt [.op .lineEnd, .keyword .elif] s'
  | _, _, _, _, _ => True

/-- A rule that ends in an open branch has come to a token with which no branch goes on. -/
theorem Rule.Derives.halts {c : Category} {rule : Rule c} {s s' : σ} {a : c.Tree}
    (h : rule.Derives s a s') : rule.Halts s a s' := by
  induction h with
  | noTerminators ht hk => exact .of_current ht (by simpa using hk)
  | terminators _ _ _ ih | byName _ _ _ ih | byCondition _ _ _ ih | byReturn _ _ _ ih
  | clause _ _ _ ih => exact ih
  | block | byValue | byFunction | empty | assign | expr | retNone | ret => exact False.elim
  | branchElse _ _ _ _ _ _ _ _ _ _ ih => exact ih
  | branch _ _ _ _ ht hk _ ihx ihcs =>
    intro _ t ht'
    cases ht.symm.trans ht'
    have others := (ihcs ihx).not_mem ht
    simp only [Kind.continuing, List.mem_cons, List.not_mem_nil, or_false, not_or] at others ⊢
    exact ⟨others.1, others.2, hk⟩
  | noClauses ht hk =>
    intro line t ht'
    cases ht.symm.trans ht'
    have others := line.not_mem ht
    simp only [List.mem_cons, List.not_mem_nil, or_false, not_or] at others ⊢
    exact ⟨others, hk⟩
  | clauses _ _ _ _ _ _ ihx ihcs => exact fun _ => ihcs ihx
  | _ => trivial

/-- Where no terminator is next, none is skipped. -/
theorem eq_of_terminators (h : Rule.terminators.Derives s () s') (hn : NotAt [.op .lineEnd] s) :
    s' = s := by
  cases h with
  | noTerminators => rfl
  | terminators hk hc _ => exact absurd (by simp [hk]) (hn.not_mem hc.current)

/-- Where no `elif` is next, there are no further clauses. -/
theorem eq_of_clauses {cs : List Clause} (h : Rule.clauses.Derives s cs s')
    (hn : NotAt [.keyword .elif] s) : cs = [] ∧ s' = s := by
  cases h with
  | noClauses => exact ⟨rfl, rfl⟩
  | clauses hk hc _ _ _ => exact absurd (by simp [hk]) (hn.not_mem hc.current)

/-- The empty statement is read where a terminator is next. -/
theorem not_isEmpty_of_statement {a : Statement} (h : Rule.statement.Derives s a s')
    (hn : NotAt [.op .lineEnd] s) : ¬a.IsEmpty := by
  cases h with
  | empty hk hc => exact absurd (by simp [hk]) (hn.not_mem hc.current)
  | byName _ _ h => cases h <;> exact id
  | byReturn _ _ h => cases h <;> exact id
  | _ => exact id

/-- A clause that ends in an open branch is followed by no other one, and by no `else`. -/
theorem ClausesClosed.cons_of_derives {c : Clause} {cs : List Clause} {o : Option Statement}
    (hc : c.body.EndsOpen → NotAt Kind.continuing s₁) (hx : Rule.terminators.Derives s₁ () s₂)
    (hcs : Rule.clauses.Derives s₂ cs s') (ho : o ≠ none → ¬NotAt [.keyword .else_] s')
    (closed : ClausesClosed cs o) : ClausesClosed (c :: cs) o := by
  refine ⟨fun more isOpen => ?_, closed⟩
  have halts := hc isOpen
  obtain rfl := eq_of_terminators hx (halts.mono (by decide))
  obtain ⟨rfl, rfl⟩ := eq_of_clauses hcs (halts.mono (by decide))
  exact ho (more.resolve_left (fun h => h rfl)) (halts.mono (by decide))

/-! ## What rules come to -/

/-- The trees that a rule comes to are well formed in every part, where the rule of a chain is given
one that is. Moreover no statement of a block is empty, and clauses are closed unless an `else`
follows. -/
def Rule.Forms : {c : Category} → Rule c → σ → c.Tree → σ → Prop
  | _, exprTail l, _, e, _ | _, termTail l, _, e, _ | _, disjunctionTail l, _, e, _
  | _, conjunctionTail l, _, e, _ | _, comparisonTail l, _, e, _ =>
    (Node.expr l).Everywhere Node.WellFormed → (Node.expr e).Everywhere Node.WellFormed
  | _, names, _, ns, _ => ∀ n ∈ ns, n.kind = .ident
  | _, statements, s, as, _ =>
    (as.map Node.statement).Forall (·.Everywhere Node.WellFormed) ∧
      (NotAt [.op .lineEnd] s → ∀ a ∈ as, ¬a.IsEmpty)
  | _, clauses, _, cs, s' =>
    (cs.map Node.clause).Forall (·.Everywhere Node.WellFormed) ∧
      ∀ o : Option Statement, (o ≠ none → ¬NotAt [.keyword .else_] s') → ClausesClosed cs o
  | c, _, _, a, _ => (c.nodes a).Forall (·.Everywhere Node.WellFormed)

/-- An arithmetic expression is a value. -/
theorem Expr.AtLevel.isValue {e : Expr} (h : e.AtLevel .sum) : e.IsValue := ⟨h, h.isPure⟩

/-- What the rule for expressions comes to is a value. -/
theorem Rule.Derives.isValue {e : Expr} (h : Rule.expr.Derives s e s') : e.IsValue :=
  Expr.AtLevel.isValue h.grades

/-- What is consumed as a name is a name. -/
theorem Rule.Derives.isName {t : Token} (h : Consumes .ident s t s') : t.kind = .ident :=
  Token.eq_of_hasKind h.2.1 rfl

/-- A kind among operators that are binary is that of a binary operator. -/
theorem Operator.mem_binary {t : Token} {operators : List Operator}
    (hk : t.kind ∈ operators.map .op) (ho : operators ⊆ Operator.binary) :
    t.kind ∈ Operator.binary.map .op :=
  List.map_subset _ ho hk

/-- Every rule comes to trees that are well formed in every part. -/
theorem Rule.Derives.forms {c : Category} {rule : Rule c} {s s' : σ} {a : c.Tree}
    (h : rule.Derives s a s') : rule.Forms s a s' := by
  induction h with
  | wholeProgram _ ih | wholeExpression _ _ ih | wholeCondition _ _ ih
  | wholeStatement _ _ ih => exact ih
  | noTerminators | terminators | end_ => trivial
  | program _ _ _ _ _ _ ihf _ ihfs =>
    exact Node.everywhere_iff.2 ⟨trivial, List.forall_cons .. |>.2 ⟨ihf, ihfs⟩⟩
  | noFunctions | noItems => trivial
  | functions _ _ _ _ _ ihf _ ihfs => exact List.forall_cons .. |>.2 ⟨ihf, ihfs⟩
  | function _ hn _ _ ihp ihb => exact Node.everywhere_iff.2 ⟨isName hn, ihp, ihb⟩
  | params _ _ _ ih => exact Node.everywhere_iff.2 ⟨ih, trivial⟩
  | noNames => exact fun _ hn => absurd hn List.not_mem_nil
  | lastName _ _ hn => exact List.forall_mem_singleton.2 (isName hn)
  | names _ _ hn _ _ _ _ ih => exact List.forall_mem_cons.2 ⟨isName hn, ih⟩
  | scope _ hx _ _ _ ih => exact Node.everywhere_iff.2 ⟨ih.2 hx.halts, ih.1⟩
  | noStatements => exact ⟨trivial, fun _ _ hn => absurd hn List.not_mem_nil⟩
  | statements _ _ ha hx _ iha _ ihas =>
    refine ⟨List.forall_cons .. |>.2 ⟨iha, ihas.1⟩, fun line => ?_⟩
    exact List.forall_mem_cons.2 ⟨not_isEmpty_of_statement ha line, ihas.2 hx.halts⟩
  | block _ _ _ ih | byName _ _ _ ih | byCondition _ _ _ ih | byReturn _ _ _ ih
  | name _ _ _ ih | positive _ _ _ ih | exponent _ _ _ ih | base _ _ _ ih
  | value _ _ _ _ _ ih => exact ih
  | byValue _ _ _ he _ ih | expr _ _ _ he _ ih =>
    exact Node.everywhere_iff.2 ⟨he.isValue, ih⟩
  | byFunction _ _ _ ih => exact Node.everywhere_iff.2 ⟨trivial, ih⟩
  | empty => exact Node.everywhere_iff.2 ⟨trivial, trivial⟩
  | assign _ _ hn _ he _ ih => exact Node.everywhere_iff.2 ⟨⟨isName hn, he.isValue⟩, ih⟩
  | retNone => exact Node.everywhere_iff.2 ⟨nofun, trivial⟩
  | ret _ _ _ he _ ih =>
    refine Node.everywhere_iff.2 ⟨?_, ih⟩
    rintro v ⟨⟩
    exact he.isValue
  | branchElse _ hc hx hcs hk he _ ihc _ ihcs iha =>
    have here : ¬NotAt [.keyword .else_] _ := fun h => h.not_mem he.current (by simp [hk])
    refine Node.everywhere_iff.2 ⟨?_, List.forall_cons .. |>.2
      ⟨ihc, List.forall_append .. |>.2 ⟨ihcs.1, iha⟩⟩⟩
    exact ClausesClosed.cons_of_derives hc.halts hx hcs (fun _ => here) (ihcs.2 _ fun _ => here)
  | branch _ hc hx hcs _ _ ihc _ ihcs =>
    refine Node.everywhere_iff.2 ⟨?_, List.forall_cons .. |>.2
      ⟨ihc, List.forall_append .. |>.2 ⟨ihcs.1, trivial⟩⟩⟩
    exact ClausesClosed.cons_of_derives hc.halts hx hcs (absurd rfl) (ihcs.2 none (absurd rfl))
  | noClauses => exact ⟨trivial, fun _ _ => trivial⟩
  | clauses _ _ hc hx hcs ihc _ ihcs =>
    exact ⟨List.forall_cons .. |>.2 ⟨ihc, ihcs.1⟩, fun o ho =>
      ClausesClosed.cons_of_derives hc.halts hx hcs ho (ihcs.2 o ho)⟩
  | clause he _ ihe iha =>
    have condition : Expr.AtTier .disjunction _ := he.grades
    exact Node.everywhere_iff.2 ⟨⟨condition, condition.separated⟩, ihe, iha⟩
  | sum _ _ ihl iht | product _ _ ihl iht | disjunction _ _ ihl iht | conjunction _ _ ihl iht
  | comparison _ _ ihl iht => exact iht ihl
  | sumEnd | productEnd | disjunctionEnd | conjunctionEnd | comparisonEnd => exact id
  | sumTail hk _ _ _ ihr iht | productTail hk _ _ _ ihr iht | disjunctionTail hk _ _ _ ihr iht
  | conjunctionTail hk _ _ _ ihr iht | comparisonTail hk _ _ _ ihr iht =>
    exact fun hl => iht (Node.everywhere_iff.2 ⟨Operator.mem_binary hk (by decide), hl, ihr⟩)
  | power _ _ hk _ ihl ihr =>
    exact Node.everywhere_iff.2 ⟨by simp [Node.WellFormed, hk, Operator.binary], ihl, ihr⟩
  | number | string | bool | missing | symbol | truth =>
    exact Node.everywhere_iff.2 ⟨trivial, trivial⟩
  | group _ _ _ _ ih | condition _ _ _ _ ih | byCall _ _ _ ih =>
    exact Node.everywhere_iff.2 ⟨trivial, ih⟩
  | sign hk _ _ ih =>
    refine Node.everywhere_iff.2 ⟨?_, ih⟩
    rcases hk with hk | hk <;> simp [Node.WellFormed, hk, Operator.unary]
  | negation hk _ _ ih | opposite hk _ _ ih =>
    exact Node.everywhere_iff.2 ⟨by simp [Node.WellFormed, hk, Operator.unary], ih⟩
  | call hn _ has ih =>
    have arguments : ∀ e ∈ Args.items _, e.AtLevel .sum := has.grades
    exact Node.everywhere_iff.2 ⟨⟨isName hn, fun e he => (arguments e he).isValue⟩, ih⟩
  | args _ _ _ ih => exact Node.everywhere_iff.2 ⟨trivial, ih⟩
  | lastItem _ _ _ _ _ ih => exact ih
  | items _ _ _ _ _ _ _ ihe ihes => exact List.forall_cons .. |>.2 ⟨ihe, ihes⟩

end

/-! ## The trees of a text -/

/-- Every part of a parsed tree is well formed. The empty statement stands only after a condition
or after an `else`, unless it is the whole tree. -/
theorem parse_wellFormed {keywords : KeywordTable} {r : Radix} {entry : Entry} {source : String}
    {node : Node} (h : parse keywords r entry source = .ok node) :
    node.Everywhere Node.WellFormed ∧
      node.Everywhere fun n => ∀ pos, Node.statement (.empty pos) ∈ n.children →
        (∃ c, n = .clause c ∧ c.body = .empty pos) ∨
          ∃ b, n = .statement (.branch b) ∧ b.otherwise = some (.empty pos) := by
  obtain ⟨_, _, _, _, derives⟩ := exists_derives_of_parse h
  have wellFormed : node.Everywhere Node.WellFormed := derives.forms
  exact ⟨wellFormed, fun n hn _ hc => (wellFormed n hn).of_empty hc⟩

/-- An `else` after the terminator that is the body of the inner one of two branches. -/
theorem parse_wellFormed_else : ∃ node,
    parse .standard .decimal .statement "if a if b\nelse c" = .ok node ∧
    node.Everywhere Node.WellFormed ∧
      node.Everywhere fun n => ∀ pos, Node.statement (.empty pos) ∈ n.children →
        (∃ c, n = .clause c ∧ c.body = .empty pos) ∨
          ∃ b, n = .statement (.branch b) ∧ b.otherwise = some (.empty pos) := by
  have tokens : tokenize .standard .decimal "if a if b\nelse c" =
      .ok [⟨.keyword .if_, .text "if", ⟨0, 1, 1⟩⟩, ⟨.ident, .text "a", ⟨3, 1, 4⟩⟩,
        ⟨.keyword .if_, .text "if", ⟨5, 1, 6⟩⟩, ⟨.ident, .text "b", ⟨8, 1, 9⟩⟩,
        ⟨.op .lineEnd, .text "\n", ⟨9, 1, 10⟩⟩, ⟨.keyword .else_, .text "else", ⟨10, 2, 1⟩⟩,
        ⟨.ident, .text "c", ⟨15, 2, 6⟩⟩, ⟨.eof, .text "EOF", ⟨16, 2, 7⟩⟩] := by decide +kernel
  have parsed : parse .standard .decimal .statement "if a if b\nelse c" =
      .ok (.statement (.branch ⟨⟨.leaf .symbol (.text "a") 3, .branch
        ⟨⟨.leaf .symbol (.text "b") 8, .empty 9, 5⟩, [],
          some (.expr (.leaf .symbol (.text "c") 15) 15), 5⟩, 0⟩, [], none, 0⟩)) :=
    (parse_eq_parseTokens KeywordTable.noEnd_standard tokens).trans rfl
  exact ⟨_, parsed, parse_wellFormed parsed⟩

end Quill
