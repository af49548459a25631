import Quill.Proofs.Lookahead
import Quill.Tree.Same

/-!
# Scripts that go alike

Where a token stands, and how an operator is spelled, is handed on by the rules and never looked
into. Two tokens that differ in nothing else are alike (`Token.Like`), and so are two rules that
differ in trees which are the same (`Rule.Like`). On tokens that are alike, the scripts of rules
that are alike give the same commands and come to trees that are the same (`Rule.like_script`).
-/

namespace Quill

/-! ## Tokens, trees and rules -/

/-- Tokens of the kind can differ in their values: operators in any way, others by values that are
the same. -/
def Kind.Admits (k : Kind) (v w : Value) : Prop := k.isOperator = false → v.same w = true

/-- Two tokens are of one kind, and unless they are operators they carry the same value. -/
structure Token.Like (t u : Token) : Prop where
  kind : t.kind = u.kind
  value : t.kind.Admits t.value u.value

/-- Tokens that are alike differ in their values and in their places. -/
theorem Token.forall_like {P : Token → Token → Prop} :
    (∀ {t u}, t.Like u → P t u) ↔
      ∀ k v w p q, k.Admits v w → P ⟨k, v, p⟩ ⟨k, w, q⟩ := by
  constructor
  · exact fun h k v w p q hv => h ⟨rfl, hv⟩
  · rintro h ⟨k, v, p⟩ ⟨_, w, q⟩ ⟨rfl, hv⟩
    exact h k v w p q hv

/-- Tokens of a kind that admits both values are the same. -/
theorem Kind.Admits.same {k : Kind} {v w : Value} {p q : Location} (h : k.Admits v w) :
    Token.same ⟨k, v, p⟩ ⟨k, w, q⟩ = true := by
  rw [Token.same]
  split
  · exact Token.hasKind_of_eq rfl
  · rename_i hk
    have value := h (by simpa [Token.isOperator] using hk)
    simp [value]

/-- For a kind that is no operator the values that are admitted are the same. -/
theorem Kind.Admits.of_eq {k k' : Kind} {v w : Value} (h : k.Admits v w)
    (hk : k'.isOperator = false) (heq : k = k') : v.same w = true :=
  h (heq ▸ hk)

/-- For operators any value will do. -/
theorem Token.same_op {o : Operator} {v w : Value} {p q : Location} :
    Token.same ⟨.op o, v, p⟩ ⟨.op o, w, q⟩ = true :=
  Kind.Admits.same nofun

/-- Two trees of the category are the same. -/
def Category.Same : (c : Category) → c.Tree → c.Tree → Prop
  | nothing, _, _ => True
  | tokens, ts, us => sameTokens ts us = true
  | exprs, es, es' => sameExprs es es' = true
  | statements, ss, ss' => sameStatements ss ss' = true
  | clauses, cs, cs' => sameClauses cs cs' = true
  | functions, fs, fs' => sameFunctions fs fs' = true
  | expr, e, e' => e.same e' = true
  | call, c, c' => c.same c' = true
  | args, as, as' => as.same as' = true
  | params, ps, ps' => ps.same ps' = true
  | scope, s, s' => s.same s' = true
  | clause, c, c' => c.same c' = true
  | branch, b, b' => b.same b' = true
  | statement, s, s' => s.same s' = true
  | function, f, f' => f.same f' = true
  | program, p, p' => p.same p' = true
  | node, n, n' => n.same n' = true

/-- Whether the rule is given neither a place nor a tree. -/
@[reducible] def Rule.isPlain : {c : Category} → Rule c → Bool
  | _, entry _ | _, terminators | _, end_ | _, program | _, functions | _, function | _, params
  | _, names | _, scope | _, statements | _, statement | _, named | _, ret | _, branch | _, clauses
  | _, expr | _, term | _, power | _, factor | _, name | _, call | _, items | _, disjunction
  | _, conjunction | _, negation | _, comparison | _, comparand => true
  | _, _ => false

/-- Two rules are the same but for what they are given: places, or trees that are the same. -/
inductive Rule.Like : {c : Category} → Rule c → Rule c → Prop
  | plain {c : Category} {rule : Rule c} : rule.isPlain = true → rule.Like rule
  | clause {k k' : Token} : (clause k).Like (clause k')
  | args {p q : Int} : (args p).Like (args q)
  | exprTail {l l' : Expr} : l.same l' = true → (exprTail l).Like (exprTail l')
  | termTail {l l' : Expr} : l.same l' = true → (termTail l).Like (termTail l')
  | disjunctionTail {l l' : Expr} : l.same l' = true →
      (disjunctionTail l).Like (disjunctionTail l')
  | conjunctionTail {l l' : Expr} : l.same l' = true →
      (conjunctionTail l).Like (conjunctionTail l')
  | comparisonTail {l l' : Expr} : l.same l' = true → (comparisonTail l).Like (comparisonTail l')

/-! ## Scripts -/

namespace Script

/-- The two scripts, which find the tokens `t` and `u`, give the same commands on tokens that are
alike and on trees that are the same, and come to results that are the same. -/
inductive Like {α : Type} (same : α → α → Prop) : Script α → Script α → Token → Token → Prop
  | done {a b t u} : same a b → Like same (done a) (done b) t u
  | fail {d d' t u} : d.cause = d'.cause → Like same (fail d) (fail d') t u
  | current {next next' t u} : Like same (next t) (next' u) t u →
      Like same (current next) (current next') t u
  | ahead {next next' t u} : (∀ {x y}, x.Like y → Like same (next x) (next' y) t u) →
      Like same (ahead next) (ahead next') t u
  | eat {kind next next' t u} : (∀ {x y}, x.Like y → Like same (next t) (next' u) x y) →
      Like same (eat kind next) (eat kind next') t u
  | follow {c : Category} {rule rule' : Rule c} {next next' t u} : rule.Like rule' →
      (∀ a b, c.Same a b → ∀ {x y}, x.Like y → Like same (next a) (next' b) x y) →
      Like same (follow rule next) (follow rule' next') t u

section
variable {α : Type} {same : α → α → Prop} {t u : Token}

theorem like_done {a b : α} : Like same (done a) (done b) t u ↔ same a b :=
  ⟨fun | .done h => h, .done⟩

theorem like_fail {d d' : Diagnostic} :
    Like same (fail d) (fail d') t u ↔ d.cause = d'.cause :=
  ⟨fun | .fail h => h, .fail⟩

theorem like_current {next next' : Token → Script α} :
    Like same (current next) (current next') t u ↔ Like same (next t) (next' u) t u :=
  ⟨fun | .current h => h, .current⟩

theorem like_ahead {next next' : Token → Script α} :
    Like same (ahead next) (ahead next') t u ↔
      ∀ k v w p q, k.Admits v w →
        Like same (next ⟨k, v, p⟩) (next' ⟨k, w, q⟩) t u := by
  rw [← Token.forall_like (P := fun x y => Like same (next x) (next' y) t u)]
  exact ⟨fun | .ahead h => h, .ahead⟩

theorem like_eat {kind : Kind} {next next' : Token → Script α} :
    Like same (eat kind next) (eat kind next') t u ↔
      ∀ k v w p q, k.Admits v w →
        Like same (next t) (next' u) ⟨k, v, p⟩ ⟨k, w, q⟩ := by
  rw [← Token.forall_like (P := Like same (next t) (next' u))]
  exact ⟨fun | .eat h => h, .eat⟩

theorem like_follow {c : Category} {rule rule' : Rule c} {next next' : c.Tree → Script α} :
    Like same (follow rule next) (follow rule' next') t u ↔
      rule.Like rule' ∧ ∀ a b, c.Same a b →
        ∀ k v w p q, k.Admits v w →
          Like same (next a) (next' b) ⟨k, v, p⟩ ⟨k, w, q⟩ := by
  constructor
  · rintro (_ | _ | _ | _ | _ | ⟨hr, h⟩)
    refine ⟨hr, fun a b hs => ?_⟩
    exact (Token.forall_like (P := Like same (next a) (next' b))).1 (h a b hs)
  · rintro ⟨hr, h⟩
    refine .follow hr fun a b hs => ?_
    exact (Token.forall_like (P := Like same (next a) (next' b))).2 (h a b hs)

theorem like_ite {p : Prop} [Decidable p] {x y x' y' : Script α} :
    Like same (if p then x else y) (if p then x' else y') t u ↔
      (p → Like same x x' t u) ∧ (¬p → Like same y y' t u) := by
  split <;> simp_all

end

end Script

namespace Rule
variable {c : Category} {rule rule' : Rule c} {t u : Token}

attribute [local simp] Script.like_done Script.like_fail Script.like_current Script.like_ahead
  Script.like_eat Script.like_follow Script.like_ite isPlain Like.plain Like.clause Like.args
  Like.exprTail Like.termTail Like.disjunctionTail Like.conjunctionTail Like.comparisonTail
  Category.Same Node.same Program.same sameFunctions Function.same Params.same sameTokens Scope.same
  sameStatements Statement.same sameValue Branch.same sameClauses sameOtherwise Clause.same
  Expr.same Call.same Args.same sameExprs Kind.Admits.same Token.same_op

/-- A chain goes alike for operands that are alike. -/
theorem like_chain {operators : List Operator} {consumed : Kind} {operand : Rule .expr}
    {tail : Expr → Rule .expr} {l l' : Expr} (ho : operand.isPlain = true)
    (ht : ∀ {l l'}, l.same l' = true → (tail l).Like (tail l')) (hl : l.same l' = true)
    (htu : t.Like u) :
    Script.Like (Category.Same .expr) (Script.chain operators consumed operand tail l)
      (Script.chain operators consumed operand tail l') t u := by
  obtain ⟨k, v, p⟩ := t
  obtain ⟨_, w, q⟩ := u
  obtain ⟨rfl, hv⟩ := htu
  have operator := Kind.Admits.same (p := p) (q := q) hv
  simp only [Script.chain, Script.at?, Script.expect, Script.parse, Script.bind_eq_bind,
    Script.bind, Script.pure_eq, Script.like_current, Script.like_ite, Script.like_eat,
    Script.like_follow, Script.like_done]
  refine ⟨fun _ _ _ _ _ _ _ => ⟨.plain ho, fun r r' hr _ _ _ _ _ _ => ⟨ht ?_, ?_⟩⟩, fun _ => hl⟩
  · simp only [Expr.same, operator, hl, Bool.true_and]
    exact hr
  · exact fun _ _ same _ _ _ _ _ _ => same

/-- The scripts of plain rules go alike. -/
theorem like_script_self (hp : rule.isPlain = true) (ht : t.Like u)
    (hi : rule.looksAhead = true → t.kind = .ident) :
    Script.Like c.Same rule.script rule.script t u := by
  obtain ⟨k, v, p⟩ := t
  obtain ⟨_, w, q⟩ := u
  obtain ⟨rfl, hv⟩ := ht
  replace hv : k.Admits v w := hv
  have number : k = .number → v.same w = true := hv.of_eq rfl
  have string : k = .string → v.same w = true := hv.of_eq rfl
  have bool : k = .bool → v.same w = true := hv.of_eq rfl
  have absent : Value.absent.same .absent = true := rfl
  cases rule with
  | clause | args | exprTail | termTail | disjunctionTail | conjunctionTail | comparisonTail =>
    cases hp
  | entry e => cases e <;> simp +contextual [script]
  | name =>
    obtain rfl : k = .ident := hi rfl
    simp +contextual [script, hv rfl]
  | _ =>
    -- The script is read off first: too much would be tried with all conditions at hand.
    simp only [script, Script.terminator, Script.separator, Script.at?, Script.peek,
      Script.peekAhead, Script.expect, Script.parse, Script.reject, Script.pure_eq,
      Script.bind_eq_bind, Script.bind, Script.ite_bind, Script.like_current, Script.like_ahead,
      Script.like_ite, Script.like_eat, Script.like_done, Script.like_follow, Script.like_fail,
      Category.Same, Expr.same, decide_eq_true_eq]
    simp +contextual [number, string, bool, absent, hv]

/-- The scripts of rules that are alike go alike. -/
theorem like_script (h : rule.Like rule') (ht : t.Like u)
    (hi : rule.looksAhead = true → t.kind = .ident) :
    Script.Like c.Same rule.script rule'.script t u := by
  cases h with
  | plain hp => exact like_script_self hp ht hi
  | exprTail hl => exact like_chain rfl .exprTail hl ht
  | termTail hl => exact like_chain rfl .termTail hl ht
  | disjunctionTail hl => exact like_chain rfl .disjunctionTail hl ht
  | conjunctionTail hl => exact like_chain rfl .conjunctionTail hl ht
  | comparisonTail hl => exact like_chain rfl .comparisonTail hl ht
  | clause | args => simp +contextual +decide [script]

end Rule

end Quill
