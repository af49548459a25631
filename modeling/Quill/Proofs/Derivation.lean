import Quill.Proofs.Run

/-!
# Derivations

What the rules parse, as a relation: `Rule.Derives rule s a s'` has a constructor for each way that
a rule can go. A way is chosen by the current token, or by the one after it, and the constructors
that take a token say which kind it was asked for.

The scripts of the rules come to the same trees (`Rule.parses_iff_derives`), so a statement about
parses is proved by induction on a derivation, and a parse is found by giving one.
-/

namespace Quill

open TokenReader

section
variable {σ : Type} [TokenReader σ]

/-- A terminator is consumed if one is next. -/
def Terminates (s s' : σ) : Prop :=
  ∃ t, current? s = some t ∧
    (t.kind = .op .lineEnd ∧ Consumes (.op .lineEnd) s t s' ∨ t.kind ≠ .op .lineEnd ∧ s' = s)

/-- After a comma another item can follow, of which `kinds` are the first, or a parenthesis can
close the list. -/
def Separates (kinds : List Kind) (s : σ) : Prop :=
  ∃ t, current? s = some t ∧ (t.kind = .op .rparen ∨ t.kind ∈ kinds)

/-- The token that is consumed is current. -/
@[grind →]
theorem Consumes.current {kind : Kind} {s s' : σ} {t : Token} (h : Consumes kind s t s') :
    current? s = some t := h.1

/-- The kinds of token that an expression can begin with. -/
theorem Kind.mem_exprStart {k : Kind} : k ∈ exprStart ↔ k = .number ∨ k = .string ∨ k = .bool ∨
    k = .ident ∨ k = .op .lparen ∨ k = .op .pos ∨ k = .op .neg ∨ k = .op .pow := by
  simp [exprStart]

/-- The rule can come from the state `s` to the tree `a` and the state `s'`. -/
inductive Rule.Derives : {c : Category} → Rule c → σ → c.Tree → σ → Prop
  -- Whole texts
  | wholeProgram {s p s'} : program.Derives s p s' → (entry .program).Derives s (.program p) s'
  | wholeExpression {s e s₁ s'} : expr.Derives s e s₁ → end_.Derives s₁ () s' →
      (entry .expression).Derives s (.expr e) s'
  | wholeCondition {s e s₁ s'} : disjunction.Derives s e s₁ → end_.Derives s₁ () s' →
      (entry .condition).Derives s (.expr e) s'
  | wholeStatement {s a s₁ s'} : statement.Derives s a s₁ → end_.Derives s₁ () s' →
      (entry .statement).Derives s (.statement a) s'
  | noTerminators {s t} : current? s = some t → t.kind ≠ .op .lineEnd →
      terminators.Derives s () s
  | terminators {s t s₁ s'} : t.kind = .op .lineEnd → Consumes (.op .lineEnd) s t s₁ →
      terminators.Derives s₁ () s' → terminators.Derives s () s'
  | end_ {s s₁ t s'} : terminators.Derives s () s₁ → Consumes .eof s₁ t s' →
      end_.Derives s () s'
  -- Program structure
  | program {s s₁ t f s₂ s₃ fs s'} : terminators.Derives s () s₁ → current? s₁ = some t →
      function.Derives s₁ f s₂ → terminators.Derives s₂ () s₃ → functions.Derives s₃ fs s' →
      program.Derives s ⟨f :: fs, t.pos⟩ s'
  | noFunctions {s t} : current? s = some t → t.kind = .eof → functions.Derives s [] s
  | functions {s t f s₁ s₂ fs s'} : current? s = some t → t.kind ≠ .eof →
      function.Derives s f s₁ → terminators.Derives s₁ () s₂ → functions.Derives s₂ fs s' →
      functions.Derives s (f :: fs) s'
  | function {s t s₁ n s₂ ps s₃ b s'} : Consumes (.keyword .fn) s t s₁ →
      Consumes .ident s₁ n s₂ → params.Derives s₂ ps s₃ → scope.Derives s₃ b s' →
      function.Derives s ⟨n, ps, b, t.pos⟩ s'
  | params {s t s₁ ns s₂ t' s'} : Consumes (.op .lparen) s t s₁ → names.Derives s₁ ns s₂ →
      Consumes (.op .rparen) s₂ t' s' → params.Derives s ⟨ns, t.pos⟩ s'
  | noNames {s t} : current? s = some t → t.kind = .op .rparen → names.Derives s [] s
  | lastName {s t n s₁ t'} : current? s = some t → t.kind ≠ .op .rparen →
      Consumes .ident s n s₁ → current? s₁ = some t' → t'.kind ≠ .op .comma →
      names.Derives s [n] s₁
  | names {s t n s₁ t' s₂ ns s'} : current? s = some t → t.kind ≠ .op .rparen →
      Consumes .ident s n s₁ → t'.kind = .op .comma → Consumes (.op .comma) s₁ t' s₂ →
      Separates [.ident] s₂ → names.Derives s₂ ns s' → names.Derives s (n :: ns) s'
  | scope {s t s₁ s₂ ss s₃ t' s'} : Consumes (.op .lbrace) s t s₁ →
      terminators.Derives s₁ () s₂ → statements.Derives s₂ ss s₃ →
      Consumes (.op .rbrace) s₃ t' s' → scope.Derives s ⟨ss, t.pos⟩ s'
  | noStatements {s t} : current? s = some t → t.kind = .op .rbrace ∨ t.kind = .eof →
      statements.Derives s [] s
  | statements {s t a s₁ s₂ ss s'} : current? s = some t →
      ¬(t.kind = .op .rbrace ∨ t.kind = .eof) → statement.Derives s a s₁ →
      terminators.Derives s₁ () s₂ → statements.Derives s₂ ss s' →
      statements.Derives s (a :: ss) s'
  -- Statements
  | block {s t b s'} : current? s = some t → t.kind = .op .lbrace → scope.Derives s b s' →
      statement.Derives s (.scope b) s'
  | byName {s t a s'} : current? s = some t → t.kind = .ident → named.Derives s a s' →
      statement.Derives s a s'
  | byValue {s t e s₁ s'} : current? s = some t → t.kind ∈ Kind.exprStart → t.kind ≠ .ident →
      expr.Derives s e s₁ → Terminates s₁ s' → statement.Derives s (.expr e t.pos) s'
  | byCondition {s t b s'} : current? s = some t → t.kind = .keyword .if_ →
      branch.Derives s b s' → statement.Derives s (.branch b) s'
  | byReturn {s t a s'} : current? s = some t → t.kind = .keyword .return_ →
      ret.Derives s a s' → statement.Derives s a s'
  | byFunction {s t f s'} : current? s = some t → t.kind = .keyword .fn →
      function.Derives s f s' → statement.Derives s (.function f t.pos) s'
  | empty {s t s'} : t.kind = .op .lineEnd → Consumes (.op .lineEnd) s t s' →
      statement.Derives s (.empty t.pos) s'
  | assign {s u n s₁ t s₂ e s₃ s'} : Foresees s u → u.kind = .op .assign →
      Consumes .ident s n s₁ → Consumes (.op .assign) s₁ t s₂ → expr.Derives s₂ e s₃ →
      Terminates s₃ s' → named.Derives s (.assign n e n.pos) s'
  | expr {s t u e s₁ s'} : current? s = some t → Foresees s u → u.kind ≠ .op .assign →
      expr.Derives s e s₁ → Terminates s₁ s' → named.Derives s (.expr e t.pos) s'
  | retNone {s t s₁ u s'} : Consumes (.keyword .return_) s t s₁ → current? s₁ = some u →
      u.kind = .op .lineEnd ∨ u.kind = .op .rbrace ∨ u.kind = .eof → Terminates s₁ s' →
      ret.Derives s (.ret none t.pos) s'
  | ret {s t s₁ u e s₂ s'} : Consumes (.keyword .return_) s t s₁ → current? s₁ = some u →
      ¬(u.kind = .op .lineEnd ∨ u.kind = .op .rbrace ∨ u.kind = .eof) → expr.Derives s₁ e s₂ →
      Terminates s₂ s' → ret.Derives s (.ret (some e) t.pos) s'
  | branchElse {s t s₁ c s₂ s₃ cs s₄ t' s₅ a s'} : Consumes (.keyword .if_) s t s₁ →
      (clause t).Derives s₁ c s₂ → terminators.Derives s₂ () s₃ → clauses.Derives s₃ cs s₄ →
      t'.kind = .keyword .else_ → Consumes (.keyword .else_) s₄ t' s₅ →
      statement.Derives s₅ a s' → branch.Derives s ⟨c, cs, some a, t.pos⟩ s'
  | branch {s t s₁ c s₂ s₃ cs s' t'} : Consumes (.keyword .if_) s t s₁ →
      (clause t).Derives s₁ c s₂ → terminators.Derives s₂ () s₃ → clauses.Derives s₃ cs s' →
      current? s' = some t' → t'.kind ≠ .keyword .else_ →
      branch.Derives s ⟨c, cs, none, t.pos⟩ s'
  | noClauses {s t} : current? s = some t → t.kind ≠ .keyword .elif → clauses.Derives s [] s
  | clauses {s t s₁ c s₂ s₃ cs s'} : t.kind = .keyword .elif →
      Consumes (.keyword .elif) s t s₁ → (clause t).Derives s₁ c s₂ →
      terminators.Derives s₂ () s₃ → clauses.Derives s₃ cs s' → clauses.Derives s (c :: cs) s'
  | clause {keyword s e s₁ a s'} : disjunction.Derives s e s₁ → statement.Derives s₁ a s' →
      (clause keyword).Derives s ⟨e, a, keyword.pos⟩ s'
  -- Arithmetic
  | sum {s l s₁ e s'} : term.Derives s l s₁ → (exprTail l).Derives s₁ e s' → expr.Derives s e s'
  | sumEnd {s t l} : current? s = some t → t.kind ∉ Operator.additive.map .op →
      (exprTail l).Derives s l s
  | sumTail {s t s₁ l r s₂ e s'} : t.kind ∈ Operator.additive.map .op → Consumes .anyOp s t s₁ →
      term.Derives s₁ r s₂ → (exprTail (.binary t l r l.pos)).Derives s₂ e s' →
      (exprTail l).Derives s e s'
  | product {s l s₁ e s'} : power.Derives s l s₁ → (termTail l).Derives s₁ e s' →
      term.Derives s e s'
  | productEnd {s t l} : current? s = some t → t.kind ∉ Operator.multiplicative.map .op →
      (termTail l).Derives s l s
  | productTail {s t s₁ l r s₂ e s'} : t.kind ∈ Operator.multiplicative.map .op →
      Consumes .anyOp s t s₁ → power.Derives s₁ r s₂ →
      (termTail (.binary t l r l.pos)).Derives s₂ e s' → (termTail l).Derives s e s'
  | base {s e s' t} : factor.Derives s e s' → current? s' = some t → t.kind ≠ .op .pow →
      power.Derives s e s'
  | power {s l s₁ t r s'} : factor.Derives s l s₁ → current? s₁ = some t → t.kind = .op .pow →
      factor.Derives s₁ r s' → power.Derives s (.binary t l r l.pos) s'
  | number {s t s'} : t.kind = .number → Consumes .number s t s' →
      factor.Derives s (.leaf .number t.value t.pos) s'
  | string {s t s'} : t.kind = .string → Consumes .string s t s' →
      factor.Derives s (.leaf .string t.value t.pos) s'
  | bool {s t s'} : t.kind = .bool → Consumes .bool s t s' →
      factor.Derives s (.leaf .bool t.value t.pos) s'
  | name {s t e s'} : current? s = some t → t.kind = .ident → name.Derives s e s' →
      factor.Derives s e s'
  | group {s t s₁ e s₂ t' s'} : t.kind = .op .lparen → Consumes (.op .lparen) s t s₁ →
      expr.Derives s₁ e s₂ → Consumes (.op .rparen) s₂ t' s' →
      factor.Derives s (.group e t.pos) s'
  | exponent {s t s₁ e s'} : t.kind = .op .pow → Consumes (.op .pow) s t s₁ →
      power.Derives s₁ e s' → factor.Derives s e s'
  | sign {s t s₁ e s'} : t.kind = .op .pos ∨ t.kind = .op .neg → Consumes t.kind s t s₁ →
      factor.Derives s₁ e s' → factor.Derives s (.unary t e t.pos) s'
  | missing {s t} : current? s = some t → t.kind = .eof →
      factor.Derives s (.leaf .none .absent t.pos) s
  | byCall {s u c s'} : Foresees s u → u.kind = .op .lparen → call.Derives s c s' →
      name.Derives s (.call c c.pos) s'
  | symbol {s u n s'} : Foresees s u → u.kind ≠ .op .lparen → Consumes .ident s n s' →
      name.Derives s (.leaf .symbol n.value n.pos) s'
  | call {s n s₁ t as s'} : Consumes .ident s n s₁ → current? s₁ = some t →
      (args t.pos).Derives s₁ as s' → call.Derives s ⟨n, as, n.pos⟩ s'
  | args {pos s t s₁ es s₂ t' s'} : Consumes (.op .lparen) s t s₁ → items.Derives s₁ es s₂ →
      Consumes (.op .rparen) s₂ t' s' → (args pos).Derives s ⟨es, pos⟩ s'
  | noItems {s t} : current? s = some t → t.kind = .op .rparen → items.Derives s [] s
  | lastItem {s t e s₁ t'} : current? s = some t → t.kind ≠ .op .rparen → expr.Derives s e s₁ →
      current? s₁ = some t' → t'.kind ≠ .op .comma → items.Derives s [e] s₁
  | items {s t e s₁ t' s₂ es s'} : current? s = some t → t.kind ≠ .op .rparen →
      expr.Derives s e s₁ → t'.kind = .op .comma → Consumes (.op .comma) s₁ t' s₂ →
      Separates Kind.exprStart s₂ → items.Derives s₂ es s' → items.Derives s (e :: es) s'
  -- Conditions
  | disjunction {s l s₁ e s'} : conjunction.Derives s l s₁ →
      (disjunctionTail l).Derives s₁ e s' → disjunction.Derives s e s'
  | disjunctionEnd {s t l} : current? s = some t → t.kind ∉ [Operator.or].map .op →
      (disjunctionTail l).Derives s l s
  | disjunctionTail {s t s₁ l r s₂ e s'} : t.kind ∈ [Operator.or].map .op →
      Consumes (.op .or) s t s₁ → conjunction.Derives s₁ r s₂ →
      (disjunctionTail (.binary t l r l.pos)).Derives s₂ e s' → (disjunctionTail l).Derives s e s'
  | conjunction {s l s₁ e s'} : negation.Derives s l s₁ →
      (conjunctionTail l).Derives s₁ e s' → conjunction.Derives s e s'
  | conjunctionEnd {s t l} : current? s = some t → t.kind ∉ [Operator.and].map .op →
      (conjunctionTail l).Derives s l s
  | conjunctionTail {s t s₁ l r s₂ e s'} : t.kind ∈ [Operator.and].map .op →
      Consumes (.op .and) s t s₁ → negation.Derives s₁ r s₂ →
      (conjunctionTail (.binary t l r l.pos)).Derives s₂ e s' → (conjunctionTail l).Derives s e s'
  | negation {s t s₁ e s'} : t.kind = .op .not → Consumes (.op .not) s t s₁ →
      negation.Derives s₁ e s' → negation.Derives s (.unary t e t.pos) s'
  | positive {s t e s'} : current? s = some t → t.kind ≠ .op .not → comparison.Derives s e s' →
      negation.Derives s e s'
  | comparison {s l s₁ e s'} : comparand.Derives s l s₁ → (comparisonTail l).Derives s₁ e s' →
      comparison.Derives s e s'
  | comparisonEnd {s t l} : current? s = some t → t.kind ∉ Operator.relational.map .op →
      (comparisonTail l).Derives s l s
  | comparisonTail {s t s₁ l r s₂ e s'} : t.kind ∈ Operator.relational.map .op →
      Consumes .anyOp s t s₁ → comparand.Derives s₁ r s₂ →
      (comparisonTail (.binary t l r l.pos)).Derives s₂ e s' → (comparisonTail l).Derives s e s'
  | truth {s t s'} : t.kind = .bool → Consumes .bool s t s' →
      comparand.Derives s (.leaf .bool t.value t.pos) s'
  | opposite {s t s₁ e s'} : t.kind = .op .not → Consumes (.op .not) s t s₁ →
      comparison.Derives s₁ e s' → comparand.Derives s (.unary t e t.pos) s'
  | condition {s t s₁ e s₂ t' s'} : t.kind = .op .lparen → Consumes (.op .lparen) s t s₁ →
      disjunction.Derives s₁ e s₂ → Consumes (.op .rparen) s₂ t' s' →
      comparand.Derives s (.group e t.pos) s'
  | value {s t e s'} : current? s = some t → t.kind ∈ Kind.exprStart → t.kind ≠ .bool →
      t.kind ≠ .op .lparen → expr.Derives s e s' → comparand.Derives s e s'

namespace Rule
variable {c : Category} {rule : Rule c} {s s' : σ} {a : c.Tree}

/-- Each way that a rule can go is one that its script goes. -/
theorem Derives.parses (h : rule.Derives s a s') : rule.Parses s a s' := by
  induction h <;> rw [parses_iff] <;> simp [script, Script.Runs, Script.runs_ite, *]
  -- What is left is to name the states that the script goes through.
  all_goals grind [Terminates, Separates, Kind.mem_exprStart]

section
variable {follows : {c : Category} → Rule c → σ → c.Tree → σ → Prop} {α : Type} {b : α}

/-- A script that begins with a terminator goes on behind one, or where none is needed. -/
theorem runs_terminator {f : Unit → Script α} :
    (Script.terminator.bind f).Runs follows s b s' ↔
      ∃ s₁, Terminates s s₁ ∧ (f ()).Runs follows s₁ b s' := by
  simp only [Script.terminator, Script.at?, Script.expect, Script.bind_eq_bind, Script.bind,
    Script.ite_bind, Script.pure_eq, Script.Runs, Script.runs_ite, decide_eq_true_eq,
    List.mem_singleton]
  constructor
  · rintro ⟨t, ht, ⟨hk, t', s₁, hc, h⟩ | ⟨hk, h⟩⟩
    · cases ht.symm.trans hc.current
      exact ⟨s₁, ⟨t, ht, .inl ⟨hk, hc⟩⟩, h⟩
    · exact ⟨s, ⟨t, ht, .inr ⟨hk, rfl⟩⟩, h⟩
  · rintro ⟨s₁, ⟨t, ht, ⟨hk, hc⟩ | ⟨hk, rfl⟩⟩, h⟩
    · exact ⟨t, ht, .inl ⟨hk, t, s₁, hc, h⟩⟩
    · exact ⟨t, ht, .inr ⟨hk, h⟩⟩

/-- A script that begins with a separator goes on where an item or the end of the list is next. -/
theorem runs_separator {rule item : String} {kinds : List Kind} {f : Unit → Script α} :
    ((Script.separator rule kinds item).bind f).Runs follows s b s' ↔
      Separates kinds s ∧ (f ()).Runs follows s b s' := by
  simp only [Script.separator, Script.peek, Script.reject, Script.bind_eq_bind, Script.bind,
    Script.ite_bind, Script.pure_eq, Script.Runs, Script.runs_ite]
  constructor
  · rintro ⟨t, ht, ⟨hk, h⟩ | ⟨-, h⟩⟩
    · exact ⟨⟨t, ht, hk⟩, h⟩
    · exact h.elim
  · rintro ⟨⟨t, ht, hk⟩, h⟩
    exact ⟨t, ht, .inl ⟨hk, h⟩⟩

/-- A chain of operators ends where none of them is next, and goes on otherwise with an operand. -/
theorem runs_chain {operators : List Operator} {consumed : Kind} {operand : Rule .expr}
    {tail : Expr → Rule .expr} {l e : Expr} :
    (Script.chain operators consumed operand tail l).Runs follows s e s' ↔
      ∃ t, current? s = some t ∧
        (t.kind ∉ operators.map .op ∧ e = l ∧ s' = s ∨
          t.kind ∈ operators.map .op ∧ ∃ s₁ r s₂, Consumes consumed s t s₁ ∧
            follows operand s₁ r s₂ ∧ follows (tail (.binary t l r l.pos)) s₂ e s') := by
  simp only [Script.chain, Script.at?, Script.expect, Script.parse, Script.bind_eq_bind,
    Script.bind, Script.pure_eq, Script.Runs, Script.runs_ite, decide_eq_true_eq]
  constructor
  · rintro ⟨t, ht, ⟨hk, t', s₁, hc, r, s₂, hr, e', s₃, he, rfl, rfl⟩ | ⟨hk, rfl, rfl⟩⟩
    · cases ht.symm.trans hc.current
      exact ⟨t, ht, .inr ⟨hk, s₁, r, s₂, hc, hr, he⟩⟩
    · exact ⟨t, ht, .inl ⟨hk, rfl, rfl⟩⟩
  · rintro ⟨t, ht, ⟨hk, rfl, rfl⟩ | ⟨hk, s₁, r, s₂, hc, hr, he⟩⟩
    · exact ⟨t, ht, .inr ⟨hk, rfl, rfl⟩⟩
    · exact ⟨t, ht, .inl ⟨hk, t, s₁, hc, r, s₂, hr, e, s', he, rfl, rfl⟩⟩

end

/-- A rule goes one of its ways if the rules that its script follows do. -/
theorem derives_of_runs (h : rule.script.Runs Derives s a s') : rule.Derives s a s' := by
  cases rule with
  | entry e =>
    cases e with
    | program =>
      obtain ⟨p, s₁, hp, rfl, rfl⟩ := h
      exact .wholeProgram hp
    | expression =>
      obtain ⟨e, s₁, he, ⟨⟩, s₂, hx, rfl, rfl⟩ := h
      exact .wholeExpression he hx
    | condition =>
      obtain ⟨e, s₁, he, ⟨⟩, s₂, hx, rfl, rfl⟩ := h
      exact .wholeCondition he hx
    | statement =>
      obtain ⟨e, s₁, he, ⟨⟩, s₂, hx, rfl, rfl⟩ := h
      exact .wholeStatement he hx
  | terminators =>
    simp only [script, Script.at?, Script.expect, Script.parse, Script.bind_eq_bind, Script.bind,
      Script.pure_eq, Script.Runs, Script.runs_ite, decide_eq_true_eq, List.mem_singleton] at h
    rcases h with ⟨t, ht, ⟨hk, t', s₁, hc, ⟨⟩, s₂, hr, -, rfl⟩ | ⟨hk, -, rfl⟩⟩
    · cases ht.symm.trans hc.current
      exact .terminators hk hc hr
    · exact .noTerminators ht hk
  | end_ =>
    obtain ⟨⟨⟩, s₁, ht, t, s₂, hc, rfl, rfl⟩ := h
    exact .end_ ht hc
  | program =>
    obtain ⟨⟨⟩, s₁, hx, t, ht, f, s₂, hf, ⟨⟩, s₃, hx', fs, s₄, hfs, rfl, rfl⟩ := h
    exact .program hx ht hf hx' hfs
  | functions =>
    simp only [script, Script.at?, Script.parse, Script.bind_eq_bind, Script.bind, Script.pure_eq,
      Script.Runs, Script.runs_ite, decide_eq_true_eq, List.mem_singleton] at h
    rcases h with ⟨t, ht, ⟨he, rfl, rfl⟩ | ⟨he, f, s₁, hf, ⟨⟩, s₂, hx, fs, s₃, hfs, rfl, rfl⟩⟩
    · exact .noFunctions ht he
    · exact .functions ht he hf hx hfs
  | function =>
    obtain ⟨t, s₁, ht, n, s₂, hn, ps, s₃, hp, b, s₄, hb, rfl, rfl⟩ := h
    exact .function ht hn hp hb
  | params =>
    obtain ⟨t, s₁, ht, ns, s₂, hn, t', s₃, ht', rfl, rfl⟩ := h
    exact .params ht hn ht'
  | names =>
    simp only [script, Script.at?, Script.expect, Script.parse, Script.bind_eq_bind, Script.bind,
      Script.pure_eq, Script.Runs, Script.runs_ite, runs_separator, decide_eq_true_eq,
      List.mem_singleton] at h
    rcases h with ⟨t, ht, ⟨he, rfl, rfl⟩ | ⟨he, n, s₁, hn, t', ht', h⟩⟩
    · exact .noNames ht he
    rcases h with ⟨hk, t'', s₂, hc, hs, ns, s₃, hr, rfl, rfl⟩ | ⟨hk, rfl, rfl⟩
    · cases ht'.symm.trans hc.current
      exact .names ht he hn hk hc hs hr
    · exact .lastName ht he hn ht' hk
  | scope =>
    obtain ⟨t, s₁, ht, ⟨⟩, s₂, hx, ss, s₃, hs, t', s₄, ht', rfl, rfl⟩ := h
    exact .scope ht hx hs ht'
  | statements =>
    simp only [script, Script.at?, Script.parse, Script.bind_eq_bind, Script.bind, Script.pure_eq,
      Script.Runs, Script.runs_ite, decide_eq_true_eq, List.mem_cons,
      List.not_mem_nil, or_false] at h
    rcases h with ⟨t, ht, ⟨he, rfl, rfl⟩ | ⟨he, a, s₁, ha, ⟨⟩, s₂, hx, ss, s₃, hs, rfl, rfl⟩⟩
    · exact .noStatements ht he
    · exact .statements ht he ha hx hs
  | statement =>
    simp only [script, Script.peek, Script.expect, Script.parse, Script.reject,
      Script.bind_eq_bind, Script.bind, Script.pure_eq, Script.Runs, Script.runs_ite,
      runs_terminator] at h
    rcases h with ⟨t, ht, ⟨hk, b, s₁, hb, rfl, rfl⟩ | ⟨-, h⟩⟩
    · exact .block ht hk hb
    rcases h with ⟨hk, a', s₁, ha, rfl, rfl⟩ | ⟨hi, h⟩
    · exact .byName ht hk ha
    rcases h with ⟨hk, e, s₁, he, s₂, hx, rfl, rfl⟩ | ⟨-, h⟩
    · exact .byValue ht hk hi he hx
    rcases h with ⟨hk, b, s₁, hb, rfl, rfl⟩ | ⟨-, h⟩
    · exact .byCondition ht hk hb
    rcases h with ⟨hk, a', s₁, ha, rfl, rfl⟩ | ⟨-, h⟩
    · exact .byReturn ht hk ha
    rcases h with ⟨hk, f, s₁, hf, rfl, rfl⟩ | ⟨-, h⟩
    · exact .byFunction ht hk hf
    rcases h with ⟨hk, t', s₁, hc, rfl, rfl⟩ | ⟨-, h⟩
    · cases ht.symm.trans hc.current
      exact .empty hk hc
    · exact h.elim
  | named =>
    simp only [script, Script.peek, Script.peekAhead, Script.expect, Script.parse,
      Script.bind_eq_bind, Script.bind, Script.pure_eq, Script.Runs, Script.runs_ite,
      runs_terminator] at h
    obtain ⟨t, ht, u, hu, h⟩ := h
    rcases h with ⟨hk, n, s₁, hn, t', s₂, hc, e, s₃, he, s₄, hx, rfl, rfl⟩ | ⟨hk, h⟩
    · exact .assign hu hk hn hc he hx
    · obtain ⟨e, s₁, he, s₂, hx, rfl, rfl⟩ := h
      exact .expr ht hu hk he hx
  | ret =>
    simp only [script, Script.at?, Script.expect, Script.parse, Script.bind_eq_bind, Script.bind,
      Script.pure_eq, Script.Runs, Script.runs_ite, runs_terminator, decide_eq_true_eq,
      List.mem_cons, List.not_mem_nil, or_false] at h
    rcases h with ⟨t, s₁, ht, u, hu, ⟨hk, s₂, hx, rfl, rfl⟩ | ⟨hk, e, s₂, he, s₃, hx, rfl, rfl⟩⟩
    · exact .retNone ht hu hk hx
    · exact .ret ht hu hk he hx
  | branch =>
    simp only [script, Script.at?, Script.expect, Script.parse, Script.bind_eq_bind, Script.bind,
      Script.pure_eq, Script.Runs, Script.runs_ite, decide_eq_true_eq, List.mem_singleton] at h
    obtain ⟨t, s₁, ht, c, s₂, hc, ⟨⟩, s₃, hx, cs, s₄, hcs, t', ht', h⟩ := h
    rcases h with ⟨hk, t'', s₅, hc', a, s₆, ha, rfl, rfl⟩ | ⟨hk, rfl, rfl⟩
    · cases ht'.symm.trans hc'.current
      exact .branchElse ht hc hx hcs hk hc' ha
    · exact .branch ht hc hx hcs ht' hk
  | clauses =>
    simp only [script, Script.at?, Script.expect, Script.parse, Script.bind_eq_bind, Script.bind,
      Script.pure_eq, Script.Runs, Script.runs_ite, decide_eq_true_eq, List.mem_singleton] at h
    rcases h with ⟨t, ht, ⟨hk, t', s₁, hc, c, s₂, hcl, ⟨⟩, s₃, hx, cs, s₄, hcs, rfl, rfl⟩ | h⟩
    · cases ht.symm.trans hc.current
      exact .clauses hk hc hcl hx hcs
    · obtain ⟨hk, rfl, rfl⟩ := h
      exact .noClauses ht hk
  | clause keyword =>
    obtain ⟨e, s₁, he, a, s₂, ha, rfl, rfl⟩ := h
    exact .clause he ha
  | expr =>
    obtain ⟨l, s₁, hl, e, s₂, he, rfl, rfl⟩ := h
    exact .sum hl he
  | exprTail l =>
    rcases runs_chain.1 h with ⟨t, ht, ⟨ho, rfl, rfl⟩ | ⟨ho, s₁, r, s₂, hc, hr, he⟩⟩
    · exact .sumEnd ht ho
    · exact .sumTail ho hc hr he
  | term =>
    obtain ⟨l, s₁, hl, e, s₂, he, rfl, rfl⟩ := h
    exact .product hl he
  | termTail l =>
    rcases runs_chain.1 h with ⟨t, ht, ⟨ho, rfl, rfl⟩ | ⟨ho, s₁, r, s₂, hc, hr, he⟩⟩
    · exact .productEnd ht ho
    · exact .productTail ho hc hr he
  | power =>
    simp only [script, Script.peek, Script.parse, Script.bind_eq_bind, Script.bind,
      Script.pure_eq, Script.Runs, Script.runs_ite] at h
    rcases h with ⟨l, s₁, hl, t, ht, ⟨hk, r, s₂, hr, rfl, rfl⟩ | ⟨hk, rfl, rfl⟩⟩
    · exact .power hl ht hk hr
    · exact .base hl ht hk
  | factor =>
    simp only [script, Script.peek, Script.expect, Script.parse, Script.reject,
      Script.bind_eq_bind, Script.bind, Script.pure_eq, Script.Runs, Script.runs_ite] at h
    rcases h with ⟨t, ht, ⟨hk, t', s₁, hc, rfl, rfl⟩ | ⟨-, h⟩⟩
    · cases ht.symm.trans hc.current
      exact .number hk hc
    rcases h with ⟨hk, t', s₁, hc, rfl, rfl⟩ | ⟨-, h⟩
    · cases ht.symm.trans hc.current
      exact .string hk hc
    rcases h with ⟨hk, t', s₁, hc, rfl, rfl⟩ | ⟨-, h⟩
    · cases ht.symm.trans hc.current
      exact .bool hk hc
    rcases h with ⟨hk, e, s₁, he, rfl, rfl⟩ | ⟨-, h⟩
    · exact .name ht hk he
    rcases h with ⟨hk, t', s₁, hc, e, s₂, he, u, s₃, hu, rfl, rfl⟩ | ⟨-, h⟩
    · cases ht.symm.trans hc.current
      exact .group hk hc he hu
    rcases h with ⟨hk, t', s₁, hc, e, s₂, he, rfl, rfl⟩ | ⟨-, h⟩
    · cases ht.symm.trans hc.current
      exact .exponent hk hc he
    rcases h with ⟨hk, t', s₁, hc, e, s₂, he, rfl, rfl⟩ | ⟨-, h⟩
    · cases ht.symm.trans hc.current
      exact .sign hk hc he
    rcases h with ⟨hk, rfl, rfl⟩ | ⟨-, h⟩
    · exact .missing ht hk
    · exact h.elim
  | name =>
    simp only [script, Script.peekAhead, Script.expect, Script.parse, Script.bind_eq_bind,
      Script.bind, Script.pure_eq, Script.Runs, Script.runs_ite] at h
    rcases h with ⟨u, hu, ⟨hk, c, s₁, hc, rfl, rfl⟩ | ⟨hk, n, s₁, hn, rfl, rfl⟩⟩
    · exact .byCall hu hk hc
    · exact .symbol hu hk hn
  | call =>
    obtain ⟨n, s₁, hn, t, ht, as, s₂, has, rfl, rfl⟩ := h
    exact .call hn ht has
  | args pos =>
    obtain ⟨t, s₁, ht, es, s₂, hes, t', s₃, ht', rfl, rfl⟩ := h
    exact .args ht hes ht'
  | items =>
    simp only [script, Script.at?, Script.expect, Script.parse, Script.bind_eq_bind, Script.bind,
      Script.pure_eq, Script.Runs, Script.runs_ite, runs_separator, decide_eq_true_eq,
      List.mem_singleton] at h
    rcases h with ⟨t, ht, ⟨hk, rfl, rfl⟩ | ⟨hk, e, s₁, he, t', ht', h⟩⟩
    · exact .noItems ht hk
    rcases h with ⟨hk', t'', s₂, hc, hs, es, s₃, hr, rfl, rfl⟩ | ⟨hk', rfl, rfl⟩
    · cases ht'.symm.trans hc.current
      exact .items ht hk he hk' hc hs hr
    · exact .lastItem ht hk he ht' hk'
  | disjunction =>
    obtain ⟨l, s₁, hl, e, s₂, he, rfl, rfl⟩ := h
    exact .disjunction hl he
  | disjunctionTail l =>
    rcases runs_chain.1 h with ⟨t, ht, ⟨ho, rfl, rfl⟩ | ⟨ho, s₁, r, s₂, hc, hr, he⟩⟩
    · exact .disjunctionEnd ht ho
    · exact .disjunctionTail ho hc hr he
  | conjunction =>
    obtain ⟨l, s₁, hl, e, s₂, he, rfl, rfl⟩ := h
    exact .conjunction hl he
  | conjunctionTail l =>
    rcases runs_chain.1 h with ⟨t, ht, ⟨ho, rfl, rfl⟩ | ⟨ho, s₁, r, s₂, hc, hr, he⟩⟩
    · exact .conjunctionEnd ht ho
    · exact .conjunctionTail ho hc hr he
  | negation =>
    simp only [script, Script.at?, Script.expect, Script.parse, Script.bind_eq_bind, Script.bind,
      Script.pure_eq, Script.Runs, Script.runs_ite, decide_eq_true_eq, List.mem_singleton] at h
    rcases h with ⟨t, ht, ⟨hk, t', s₁, hc, e, s₂, he, rfl, rfl⟩ | ⟨hk, e, s₁, he, rfl, rfl⟩⟩
    · cases ht.symm.trans hc.current
      exact .negation hk hc he
    · exact .positive ht hk he
  | comparison =>
    obtain ⟨l, s₁, hl, e, s₂, he, rfl, rfl⟩ := h
    exact .comparison hl he
  | comparisonTail l =>
    rcases runs_chain.1 h with ⟨t, ht, ⟨ho, rfl, rfl⟩ | ⟨ho, s₁, r, s₂, hc, hr, he⟩⟩
    · exact .comparisonEnd ht ho
    · exact .comparisonTail ho hc hr he
  | comparand =>
    simp only [script, Script.peek, Script.expect, Script.parse, Script.reject,
      Script.bind_eq_bind, Script.bind, Script.pure_eq, Script.Runs, Script.runs_ite] at h
    rcases h with ⟨t, ht, ⟨hk, t', s₁, hc, rfl, rfl⟩ | ⟨hb, h⟩⟩
    · cases ht.symm.trans hc.current
      exact .truth hk hc
    rcases h with ⟨hk, t', s₁, hc, e, s₂, he, rfl, rfl⟩ | ⟨-, h⟩
    · cases ht.symm.trans hc.current
      exact .opposite hk hc he
    rcases h with ⟨hk, t', s₁, hc, e, s₂, he, u, s₃, hu, rfl, rfl⟩ | ⟨hp, h⟩
    · cases ht.symm.trans hc.current
      exact .condition hk hc he hu
    rcases h with ⟨hk, e, s₁, he, rfl, rfl⟩ | ⟨-, h⟩
    · exact .value ht hk hb hp he
    · exact h.elim

/-- What a rule parses is what it derives. -/
theorem parses_iff_derives : rule.Parses s a s' ↔ rule.Derives s a s' := by
  refine ⟨fun h => ?_, Derives.parses⟩
  refine h.induction (motive := Derives) ?_
  intro c rule s a s' h
  exact derives_of_runs (h.imp fun _ _ _ _ h => h.2)

end Rule

end

end Quill
