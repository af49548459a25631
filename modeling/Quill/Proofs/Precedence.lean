import Quill.Proofs.Condition

/-!
# Precedence and associativity

What can be parsed as an expression or as a condition obeys the precedence of the operators, the
side to which they lean, and the parentheses (`parse_precedence`). The trees are sorted by what can
stand in them without parentheses: `Expr.AtLevel` for arithmetic, `Expr.AtTier` for conditions. They
are more than the trees that a text is written for (`Expr.Arithmetic`, `Expr.Condition`): an operand
may be missing at the end, and after a power sign that has no operand on its left a whole power can
stand under a sign.

Two things cannot be read off the shapes alone, and so a rule promises them of the token at which it
ends (`Rule.Grades`). A power that was read after such a sign is never the base of another power,
since it ends where no power sign is next. And a negation within a chain of comparisons is the last
operand of the chain, since it ends where no comparison goes on.
-/

namespace Quill

open TokenReader

/-! ## Trees at a level -/

/-- Whether the arithmetic tree can stand at the level. -/
inductive Expr.AtLevel : Level → Expr → Prop
  | leaf {k : LeafKind} {v : Value} {pos : Int} : k ∉ [LeafKind.call, .expr] →
      (Expr.leaf k v pos).AtLevel .operand
  | call {c : Call} {pos : Int} : (∀ e ∈ c.args.items, e.AtLevel .sum) →
      (Expr.call c pos).AtLevel .operand
  | group {e : Expr} {pos : Int} : e.AtLevel .sum → (Expr.group e pos).AtLevel .operand
  | operand {e : Expr} : e.AtLevel .operand → e.AtLevel .signed
  | sign {op : Token} {e : Expr} {pos : Int} : op.kind = .op .pos ∨ op.kind = .op .neg →
      e.AtLevel .signed → (Expr.unary op e pos).AtLevel .signed
  | signed {e : Expr} : e.AtLevel .signed → e.AtLevel .power
  | signedPower {op : Token} {e : Expr} {pos : Int} : op.kind = .op .pos ∨ op.kind = .op .neg →
      e.AtLevel .power → (Expr.unary op e pos).AtLevel .power
  | power {op : Token} {l r : Expr} {pos : Int} : op.kind = .op .pow → l.AtLevel .signed →
      r.AtLevel .power → (Expr.binary op l r pos).AtLevel .power
  | powers {e : Expr} : e.AtLevel .power → e.AtLevel .product
  | product {op : Token} {l r : Expr} {pos : Int} : op.kind ∈ Operator.multiplicative.map .op →
      l.AtLevel .product → r.AtLevel .power → (Expr.binary op l r pos).AtLevel .product
  | products {e : Expr} : e.AtLevel .product → e.AtLevel .sum
  | sum {op : Token} {l r : Expr} {pos : Int} : op.kind ∈ Operator.additive.map .op →
      l.AtLevel .sum → r.AtLevel .product → (Expr.binary op l r pos).AtLevel .sum

/-- Whether the condition can stand at the tier. -/
inductive Expr.AtTier : Tier → Expr → Prop
  | truth {v : Value} {pos : Int} : (Expr.leaf .bool v pos).AtTier .comparand
  | group {e : Expr} {pos : Int} : e.AtTier .disjunction → (Expr.group e pos).AtTier .comparand
  | opposite {op : Token} {e : Expr} {pos : Int} : op.kind = .op .not → e.AtTier .comparison →
      (Expr.unary op e pos).AtTier .comparand
  | value {e : Expr} : e.AtLevel .sum → e.AtTier .comparand
  | comparand {e : Expr} : e.AtTier .comparand → e.AtTier .comparison
  | comparison {op : Token} {l r : Expr} {pos : Int} : op.kind ∈ Operator.relational.map .op →
      l.AtTier .comparison → ¬l.lastOperand.IsNegation → r.AtTier .comparand →
      (Expr.binary op l r pos).AtTier .comparison
  | not {op : Token} {e : Expr} {pos : Int} : op.kind = .op .not → e.AtTier .negation →
      (Expr.unary op e pos).AtTier .negation
  | positive {e : Expr} : e.AtTier .comparison → e.AtTier .negation
  | negation {e : Expr} : e.AtTier .negation → e.AtTier .conjunction
  | and {op : Token} {l r : Expr} {pos : Int} : op.kind = .op .and → l.AtTier .conjunction →
      r.AtTier .negation → (Expr.binary op l r pos).AtTier .conjunction
  | conjunction {e : Expr} : e.AtTier .conjunction → e.AtTier .disjunction
  | or {op : Token} {l r : Expr} {pos : Int} : op.kind = .op .or → l.AtTier .disjunction →
      r.AtTier .conjunction → (Expr.binary op l r pos).AtTier .disjunction

namespace Expr
variable {level : Level} {tier : Tier} {e l r : Expr} {op : Token} {pos : Int}

/-- A tree at any level can stand as a sum. -/
theorem AtLevel.sum_of_level (h : e.AtLevel level) : e.AtLevel .sum := by
  cases level with
  | operand => exact .products (.powers (.signed (.operand h)))
  | signed => exact .products (.powers (.signed h))
  | power => exact .products (.powers h)
  | product => exact .products h
  | sum => exact h

/-- A condition at any tier can stand as a disjunction. -/
theorem AtTier.disjunction_of_tier (h : e.AtTier tier) : e.AtTier .disjunction := by
  cases tier with
  | comparand => exact .conjunction (.negation (.positive (.comparand h)))
  | comparison => exact .conjunction (.negation (.positive h))
  | negation => exact .conjunction (.negation h)
  | conjunction => exact .conjunction h
  | disjunction => exact h

end Expr

/-! ## What operators can stand where -/

/-- The operators of arithmetic. -/
def Operator.arithmetic : List Operator := [pos, neg, pow] ++ multiplicative ++ additive

/-- The operator of a node, if it has one. -/
def Expr.op? : Expr → Option Token
  | .binary op _ _ _ | .unary op _ _ => some op
  | _ => none

/-- Whether the first tree is a part of the second one, or all of it. -/
inductive Expr.Within (e : Expr) : Expr → Prop
  | refl : e.Within e
  | argument {a : Expr} {c : Call} {pos : Int} : a ∈ c.args.items → e.Within a →
      e.Within (.call c pos)
  | inner {a : Expr} {pos : Int} : e.Within a → e.Within (.group a pos)
  | left {op : Token} {l r : Expr} {pos : Int} : e.Within l → e.Within (.binary op l r pos)
  | right {op : Token} {l r : Expr} {pos : Int} : e.Within r → e.Within (.binary op l r pos)
  | operand {op : Token} {a : Expr} {pos : Int} : e.Within a → e.Within (.unary op a pos)

/-- Whether every operator in the tree is one of arithmetic. -/
def Expr.IsPure (e : Expr) : Prop :=
  ∀ e' op, Expr.Within e' e → e'.op? = some op → op.kind ∈ Operator.arithmetic.map .op

/-- Whether arithmetic and logic are kept apart in the tree: under an operator of arithmetic, and in
an argument of a call, there are only operators of arithmetic. Moreover the base of a power is no
node with two operands. -/
structure Expr.Separated (e : Expr) : Prop where
  arithmetic {e' : Expr} {op : Token} : e'.Within e → e'.op? = some op →
    op.kind ∈ Operator.arithmetic.map .op → e'.IsPure
  argument {c : Call} {pos : Int} {a : Expr} : (Expr.call c pos).Within e → a ∈ c.args.items →
    a.IsPure
  base {op op' : Token} {l r a b : Expr} {pos pos' : Int} : (Expr.binary op l r pos).Within e →
    op.kind = .op .pow → l ≠ .binary op' a b pos'

/-- Whether the parts of the tree are arithmetic, and its operator is one of arithmetic. -/
def Expr.ArithmeticParts : Expr → Prop
  | .leaf _ _ _ => True
  | .call c _ => ∀ a ∈ c.args.items, a.AtLevel .sum
  | .group a _ => a.AtLevel .sum
  | .unary op a _ => (op.kind = .op .pos ∨ op.kind = .op .neg) ∧ a.AtLevel .sum
  | .binary op l r _ =>
    (op.kind = .op .pow ∧ l.AtLevel .signed ∨
      op.kind ∈ (Operator.multiplicative ++ Operator.additive).map .op) ∧
      l.AtLevel .sum ∧ r.AtLevel .sum

/-- The operators that compare conditions or join them. -/
def Operator.logical : List Operator := relational ++ [not, and, or]

/-- Whether the parts of the tree are conditions, and its operator is one of logic. -/
def Expr.LogicalParts : Expr → Prop
  | .leaf _ _ _ => True
  | .call _ _ => False
  | .group a _ => a.AtTier .disjunction
  | .unary op a _ => op.kind ∈ Operator.logical.map .op ∧ a.AtTier .disjunction
  | .binary op l r _ =>
    op.kind ∈ Operator.logical.map .op ∧ l.AtTier .disjunction ∧ r.AtTier .disjunction

namespace Expr
variable {level : Level} {tier : Tier} {e e' : Expr} {op : Token}

/-- The parts of an arithmetic tree are arithmetic. -/
theorem AtLevel.parts (h : e.AtLevel level) : e.ArithmeticParts := by
  induction h with
  | leaf => trivial
  | call hc => exact hc
  | group ha => exact ha
  | sign ho ha | signedPower ho ha => exact ⟨ho, ha.sum_of_level⟩
  | power ho hl hr => exact ⟨.inl ⟨ho, hl⟩, hl.sum_of_level, hr.sum_of_level⟩
  | product ho hl hr | sum ho hl hr =>
    rw [ArithmeticParts, List.map_append, List.mem_append]
    exact ⟨.inr (by simp only [ho, true_or, or_true]), hl.sum_of_level, hr.sum_of_level⟩
  | operand _ ih | signed _ ih | powers _ ih | products _ ih => exact ih

/-- A condition is arithmetic, or its parts are conditions. -/
theorem AtTier.parts (h : e.AtTier tier) : e.AtLevel .sum ∨ e.LogicalParts := by
  have logical : ∀ k ∈ Operator.relational.map Kind.op, k ∈ Operator.logical.map Kind.op := by
    decide
  induction h with
  | truth => exact .inr trivial
  | group ha => exact .inr ha
  | value ha => exact .inl ha
  | opposite ho ha | not ho ha => exact .inr ⟨by rw [ho]; decide, ha.disjunction_of_tier⟩
  | comparison ho hl _ hr =>
    exact .inr ⟨logical _ ho, hl.disjunction_of_tier, hr.disjunction_of_tier⟩
  | and ho hl hr | or ho hl hr =>
    exact .inr ⟨by rw [ho]; decide, hl.disjunction_of_tier, hr.disjunction_of_tier⟩
  | comparand _ ih | positive _ ih | negation _ ih | conjunction _ ih => exact ih

/-- The parts of an arithmetic tree are arithmetic. -/
theorem AtLevel.within (h : e.AtLevel .sum) (hw : e'.Within e) : e'.AtLevel .sum := by
  induction hw with
  | refl => exact h
  | argument ha _ ih => exact ih (h.parts _ ha)
  | inner _ ih => exact ih h.parts
  | left _ ih => exact ih h.parts.2.1
  | right _ ih => exact ih h.parts.2.2
  | operand _ ih => exact ih h.parts.2

/-- The parts of a condition are conditions. -/
theorem AtTier.within (h : e.AtTier .disjunction) (hw : e'.Within e) :
    e'.AtTier .disjunction := by
  induction hw with
  | refl => exact h
  | argument ha hw ih =>
    rcases h.parts with arithmetic | logical
    · exact ih (AtTier.value (arithmetic.parts _ ha)).disjunction_of_tier
    · exact logical.elim
  | inner _ ih =>
    rcases h.parts with arithmetic | logical
    · exact ih (AtTier.value arithmetic.parts).disjunction_of_tier
    · exact ih logical
  | left _ ih =>
    rcases h.parts with arithmetic | logical
    · exact ih (AtTier.value arithmetic.parts.2.1).disjunction_of_tier
    · exact ih logical.2.1
  | right _ ih =>
    rcases h.parts with arithmetic | logical
    · exact ih (AtTier.value arithmetic.parts.2.2).disjunction_of_tier
    · exact ih logical.2.2
  | operand _ ih =>
    rcases h.parts with arithmetic | logical
    · exact ih (AtTier.value arithmetic.parts.2).disjunction_of_tier
    · exact ih logical.2

/-- All the operators of an arithmetic tree are of arithmetic. -/
theorem AtLevel.isPure (h : e.AtLevel .sum) : e.IsPure := by
  have signs : ∀ k, k = Kind.op .pos ∨ k = .op .neg → k ∈ Operator.arithmetic.map Kind.op := by
    rintro k (rfl | rfl) <;> decide
  have joins : ∀ k ∈ (Operator.multiplicative ++ Operator.additive).map Kind.op,
      k ∈ Operator.arithmetic.map Kind.op := by decide
  intro e' op hw ho
  have parts := (h.within hw).parts
  cases e' with
  | leaf | call | group => cases ho
  | unary op a pos =>
    cases ho
    exact signs _ parts.1
  | binary op l r pos =>
    cases ho
    rcases parts.1 with ⟨power, -⟩ | other
    · rw [power]
      decide
    · exact joins _ other

/-- A condition with an operator of arithmetic is arithmetic. -/
theorem AtTier.atLevel_of_op (h : e.AtTier .disjunction) (ho : e.op? = some op)
    (hk : op.kind ∈ Operator.arithmetic.map .op) : e.AtLevel .sum := by
  have apart : ∀ k ∈ Operator.arithmetic.map Kind.op, k ∉ Operator.logical.map Kind.op := by decide
  refine h.parts.resolve_right fun logical => ?_
  cases e with
  | leaf | call | group => cases ho
  | unary | binary =>
    cases ho
    exact apart _ hk logical.1

/-- In a condition arithmetic and logic are kept apart. -/
theorem AtTier.separated (h : e.AtTier .disjunction) : e.Separated where
  arithmetic hw ho hk := ((h.within hw).atLevel_of_op ho hk).isPure
  argument hw ha := by
    have call := (h.within hw).parts.resolve_right id
    exact (call.parts _ ha).isPure
  base {op _ l r _ _ _ _} hw ho := by
    have power := (h.within hw).atLevel_of_op rfl (by rw [ho]; decide)
    rcases power.parts.1 with ⟨-, signed⟩ | other
    · rintro rfl
      cases signed with
      | operand base => cases base
    · rw [ho] at other
      exact absurd other (by decide)

/-- A comparand is no chain of comparisons. -/
theorem AtTier.lastOperand_eq (h : e.AtTier .comparand) : e.lastOperand = e := by
  have apart : ∀ k ∈ (Operator.multiplicative ++ Operator.additive).map Kind.op,
      k ∉ Operator.relational.map Kind.op := by decide
  cases h with
  | truth | group | opposite => rfl
  | value ha =>
    cases e with
    | leaf | call | group | unary => rfl
    | binary op l r pos =>
      refine if_neg ?_
      rcases ha.parts.1 with ⟨power, -⟩ | other
      · rw [power]
        decide
      · exact apart _ other

/-- An arithmetic tree is no negation. -/
theorem AtLevel.not_isNegation (h : e.AtLevel .sum) : ¬e.IsNegation := by
  cases e with
  | leaf | call | group | binary => exact id
  | unary op a pos =>
    intro (hn : op.kind = .op .not)
    rcases h.parts.1 with ho | ho <;> cases hn.symm.trans ho

end Expr

/-! ## What a rule promises -/

section
variable {σ : Type} [TokenReader σ]

/-- The current token is of none of the kinds. -/
def NotAt (kinds : List Kind) (s : σ) : Prop := ∀ t, current? s = some t → t.kind ∉ kinds

/-- The tree that a rule comes to can stand at its level or tier. For a chain this takes it that the
tree which it is given can; a power, and a negation in a chain of comparisons, end where they must
not go on. -/
def Rule.Grades : {c : Category} → Rule c → σ → c.Tree → σ → Prop
  | _, entry .expression, _, n, _ => ∃ e, n = .expr e ∧ e.AtLevel .sum
  | _, entry .condition, _, n, _ => ∃ e, n = .expr e ∧ e.AtTier .disjunction
  | _, expr, _, e, _ => e.AtLevel .sum
  | _, exprTail l, _, e, _ => l.AtLevel .sum → e.AtLevel .sum
  | _, term, _, e, _ => e.AtLevel .product
  | _, termTail l, _, e, _ => l.AtLevel .product → e.AtLevel .product
  | _, power, _, e, s' => e.AtLevel .power ∧ NotAt [.op .pow] s'
  | _, factor, s, e, s' =>
    e.AtLevel .power ∧ (e.AtLevel .signed ∧ NotAt [.op .pow] s ∨ NotAt [.op .pow] s')
  | _, name, _, e, _ => e.AtLevel .operand
  | _, call, _, c, _ => ∀ e ∈ c.args.items, e.AtLevel .sum
  | _, args _, _, as, _ => ∀ e ∈ as.items, e.AtLevel .sum
  | _, items, _, es, _ => ∀ e ∈ es, e.AtLevel .sum
  | _, disjunction, _, e, _ => e.AtTier .disjunction
  | _, disjunctionTail l, _, e, _ => l.AtTier .disjunction → e.AtTier .disjunction
  | _, conjunction, _, e, _ => e.AtTier .conjunction
  | _, conjunctionTail l, _, e, _ => l.AtTier .conjunction → e.AtTier .conjunction
  | _, negation, _, e, _ => e.AtTier .negation
  | _, comparison, _, e, s' => e.AtTier .comparison ∧ NotAt (Operator.relational.map .op) s'
  | _, comparisonTail l, s, e, s' => l.AtTier .comparison →
    (l.lastOperand.IsNegation → NotAt (Operator.relational.map .op) s) →
      e.AtTier .comparison ∧ NotAt (Operator.relational.map .op) s'
  | _, comparand, _, e, s' =>
    e.AtTier .comparand ∧ (e.IsNegation → NotAt (Operator.relational.map .op) s')
  | _, _, _, _, _ => True

namespace NotAt
variable {kinds : List Kind} {s : σ} {t : Token}

/-- One token that is current and of none of the kinds is enough. -/
theorem of_current (ht : current? s = some t) (hk : t.kind ∉ kinds) : NotAt kinds s := by
  intro u hu
  cases ht.symm.trans hu
  exact hk

/-- The token that is current is of none of the kinds. -/
theorem not_mem (h : NotAt kinds s) (ht : current? s = some t) : t.kind ∉ kinds := h t ht

end NotAt

/-- Every rule keeps what it promises. -/
theorem Rule.Derives.grades {c : Category} {rule : Rule c} {s s' : σ} {a : c.Tree}
    (h : rule.Derives s a s') : rule.Grades s a s' := by
  induction h with
  | wholeExpression _ _ ih | wholeCondition _ _ ih => exact ⟨_, rfl, ih⟩
  -- Arithmetic
  | sum _ _ ihl iht => exact iht (.products ihl)
  | product _ _ ihl iht => exact iht (.powers ihl.1)
  | sumEnd | productEnd | disjunctionEnd | conjunctionEnd => exact id
  | sumTail ho _ _ _ ihr iht => exact fun hl => iht (.sum ho hl ihr)
  | productTail ho _ _ _ ihr iht => exact fun hl => iht (.product ho hl ihr.1)
  | base _ ht hk ih => exact ⟨ih.1, .of_current ht (by simpa using hk)⟩
  | power _ ht hk _ ihl ihr =>
    -- A power sign is next, so the base has ended before it, and the exponent begins with it.
    have sign := List.mem_singleton.2 hk
    have hl := (ihl.2.resolve_right fun ends => ends.not_mem ht sign).1
    have hr := ihr.2.resolve_left fun begins => begins.2.not_mem ht sign
    exact ⟨.power hk hl ihr.1, hr⟩
  | number hk hc | string hk hc | bool hk hc =>
    refine ⟨.signed (.operand (.leaf (by decide))), .inl ⟨.operand (.leaf (by decide)), ?_⟩⟩
    exact .of_current hc.current (by rw [hk]; decide)
  | name ht hk _ ih =>
    exact ⟨.signed (.operand ih), .inl ⟨.operand ih, .of_current ht (by rw [hk]; decide)⟩⟩
  | group hk hc _ _ ih =>
    refine ⟨.signed (.operand (.group ih)), .inl ⟨.operand (.group ih), ?_⟩⟩
    exact .of_current hc.current (by rw [hk]; decide)
  | exponent _ _ _ ih => exact ⟨ih.1, .inr ih.2⟩
  | sign hk hc _ ih =>
    refine ⟨.signedPower hk ih.1, ih.2.imp (fun signed => ⟨.sign hk signed.1, ?_⟩) id⟩
    exact .of_current hc.current (by rcases hk with hk | hk <;> rw [hk] <;> decide)
  | missing ht hk =>
    refine ⟨.signed (.operand (.leaf (by decide))), .inl ⟨.operand (.leaf (by decide)), ?_⟩⟩
    exact .of_current ht (by rw [hk]; decide)
  | byCall _ _ _ ih => exact .call ih
  | symbol => exact .leaf (by decide)
  | call _ _ _ ih | args _ _ _ ih => exact ih
  | noItems => exact fun _ he => absurd he List.not_mem_nil
  | lastItem _ _ _ _ _ ih => exact List.forall_mem_singleton.2 ih
  | items _ _ _ _ _ _ _ ihe ihes => exact List.forall_mem_cons.2 ⟨ihe, ihes⟩
  -- Conditions
  | disjunction _ _ ihl iht => exact iht (.conjunction ihl)
  | disjunctionTail ho _ _ _ ihr iht =>
    exact fun hl => iht (.or (List.mem_singleton.1 ho) hl ihr)
  | conjunction _ _ ihl iht => exact iht (.negation ihl)
  | conjunctionTail ho _ _ _ ihr iht =>
    exact fun hl => iht (.and (List.mem_singleton.1 ho) hl ihr)
  | negation hk _ _ ih => exact .not hk ih
  | positive _ _ _ ih => exact .positive ih.1
  | comparison _ _ ihl iht =>
    refine iht (.comparand ihl.1) ?_
    rw [ihl.1.lastOperand_eq]
    exact ihl.2
  | comparisonEnd ht hk => exact fun hl _ => ⟨hl, .of_current ht hk⟩
  | comparisonTail ho hc _ _ ihr iht =>
    intro hl negation
    have hn := fun isNegation => (negation isNegation).not_mem hc.current ho
    refine iht (.comparison ho hl hn ihr.1) ?_
    rw [Expr.lastOperand, if_pos ho]
    exact ihr.2
  | truth => exact ⟨.truth, False.elim⟩
  | opposite hk _ _ ih => exact ⟨.opposite hk ih.1, fun _ => ih.2⟩
  | condition _ _ _ _ ih => exact ⟨.group ih, False.elim⟩
  | value _ _ _ _ _ ih => exact ⟨.value ih, fun negation => absurd negation ih.not_isNegation⟩
  | _ => trivial

end

/-! ## The trees of a text -/

section
variable {keywords : KeywordTable} {r : Radix} {source : String} {node : Node}

/-- What is parsed as an expression can stand at the level of a sum, and what is parsed as a
condition at the tier of a disjunction. In both arithmetic and logic are kept apart, and the base of
a power is no node with two operands. -/
theorem parse_precedence :
    (parse keywords r .expression source = .ok node →
      ∃ e, node = .expr e ∧ e.AtLevel .sum ∧ e.IsPure ∧ e.Separated) ∧
    (parse keywords r .condition source = .ok node →
      ∃ e, node = .expr e ∧ e.AtTier .disjunction ∧ e.Separated) := by
  constructor
  · intro h
    obtain ⟨_, _, _, _, derives⟩ := exists_derives_of_parse h
    obtain ⟨e, rfl, level⟩ := derives.grades
    exact ⟨e, rfl, level, level.isPure, (Expr.AtTier.value level).disjunction_of_tier.separated⟩
  · intro h
    obtain ⟨_, _, _, _, derives⟩ := exists_derives_of_parse h
    obtain ⟨e, rfl, tier⟩ := derives.grades
    exact ⟨e, rfl, tier, tier.separated⟩

end

/-- A sign before a power sign takes the whole power, and a comparison may end in a negation. -/
theorem parse_precedence_signed :
    (∃ e, parse .standard .decimal .expression "-**a**b" = .ok (.expr e) ∧ e.AtLevel .sum ∧
      e.IsPure ∧ e.Separated) ∧
    ∃ e, parse .standard .decimal .condition "a<!b" = .ok (.expr e) ∧ e.AtTier .disjunction ∧
      e.Separated := by
  have tokens : tokenize .standard .decimal "-**a**b" = .ok [⟨.op .neg, .text "-", ⟨0, 1, 1⟩⟩,
      ⟨.op .pow, .text "**", ⟨1, 1, 2⟩⟩, ⟨.ident, .text "a", ⟨3, 1, 4⟩⟩,
      ⟨.op .pow, .text "**", ⟨4, 1, 5⟩⟩, ⟨.ident, .text "b", ⟨6, 1, 7⟩⟩,
      ⟨.eof, .text "EOF", ⟨7, 1, 8⟩⟩] := by decide +kernel
  have tokens' : tokenize .standard .decimal "a<!b" = .ok [⟨.ident, .text "a", ⟨0, 1, 1⟩⟩,
      ⟨.op .lt, .text "<", ⟨1, 1, 2⟩⟩, ⟨.op .not, .text "!", ⟨2, 1, 3⟩⟩,
      ⟨.ident, .text "b", ⟨3, 1, 4⟩⟩, ⟨.eof, .text "EOF", ⟨4, 1, 5⟩⟩] := by decide +kernel
  have parsed : parse .standard .decimal .expression "-**a**b" = .ok (.expr
      (.unary ⟨.op .neg, .text "-", ⟨0, 1, 1⟩⟩ (.binary ⟨.op .pow, .text "**", ⟨4, 1, 5⟩⟩
        (.leaf .symbol (.text "a") 3) (.leaf .symbol (.text "b") 6) 3) 0)) :=
    (parse_eq_parseTokens KeywordTable.noEnd_standard tokens).trans rfl
  have parsed' : parse .standard .decimal .condition "a<!b" = .ok (.expr
      (.binary ⟨.op .lt, .text "<", ⟨1, 1, 2⟩⟩ (.leaf .symbol (.text "a") 0)
        (.unary ⟨.op .not, .text "!", ⟨2, 1, 3⟩⟩ (.leaf .symbol (.text "b") 3) 2) 0)) :=
    (parse_eq_parseTokens KeywordTable.noEnd_standard tokens').trans rfl
  obtain ⟨e, ⟨⟩, sum⟩ := parse_precedence.1 parsed
  obtain ⟨e', ⟨⟩, condition⟩ := parse_precedence.2 parsed'
  exact ⟨⟨_, parsed, sum⟩, ⟨_, parsed', condition⟩⟩

end Quill
