import Mathlib.Control.Monad.Basic
import Quill.Proofs.Coverage

/-!
# Arithmetic as a condition

An operand of a comparison may be any arithmetic expression, but the rule for operands looks at the
first token before it hands over to the rule for arithmetic: a truth value is an operand by itself,
and behind a parenthesis it reads a condition up to the closing one. An operator of arithmetic that
comes after either of them is then left over, and nothing takes it. So not every expression is a
condition (`not_parse_condition_of_expression`). One that is not, begins with a truth value or a
parenthesis that is joined to something; all others are, as the same trees
(`parse_condition_of_expression`).

The argument compares what the two rules do after their first operand: they go on with different
operators (`GoesOn`), so if both come to a token that ends a condition, neither has gone on.
-/

namespace Quill

open TokenReader LawfulReader

/-- Whether the truth value or the parenthesis that the tokens of an expression begin with is all of
it. Within a leading parenthesis this holds too. -/
def Expr.StandsAlone : Expr → List Token → Prop
  | group e _, t :: ts => t.kind = .op .lparen → e.StandsAlone ts
  | binary .., t :: _ => t.kind ≠ .bool ∧ t.kind ≠ .op .lparen
  | _, _ => True

/-- Whether the tree is an operator between two operands. -/
def Expr.IsBinary (e : Expr) : Prop := ∃ op l r pos, e = .binary op l r pos

/-- The kinds that join operands of arithmetic. -/
def Kind.joinsArithmetic : List Kind :=
  .op .pow :: (Operator.multiplicative.map .op ++ Operator.additive.map .op)

/-- The kinds that join operands of conditions. -/
def Kind.joinsConditions : List Kind := Operator.relational.map .op ++ [.op .and, .op .or]

/-- The kinds that come after an expression or a condition that is complete. -/
def Kind.afterOperand : List Kind := [.op .lineEnd, .op .rparen, .eof]

/-! ## After the first operand -/

/-- What comes of the tree `l`, after which the state is `s`, is the tree `e` with the state `s'`:
the same, or something that an operator of one of the kinds has joined `l` to. -/
def GoesOn (kinds : List Kind) (l : Expr) (s : Tape) (e : Expr) (s' : Tape) : Prop :=
  e = l ∧ s' = s ∨ (∃ u, current? s = some u ∧ u.kind ∈ kinds) ∧ e.IsBinary

namespace GoesOn
variable {kinds kinds' : List Kind} {l e e' : Expr} {s s₁ s' : Tape} {u : Token}

/-- What goes on twice goes on with a kind of either list. -/
theorem trans (h : GoesOn kinds l s e s₁) (h' : GoesOn kinds' e s₁ e' s') :
    GoesOn (kinds ++ kinds') l s e' s' := by
  rcases h with ⟨rfl, rfl⟩ | ⟨⟨u, hu, hk⟩, binary⟩
  · rcases h' with ⟨rfl, rfl⟩ | ⟨⟨u, hu, hk⟩, binary⟩
    · exact .inl ⟨rfl, rfl⟩
    · exact .inr ⟨⟨u, hu, List.mem_append_right _ hk⟩, binary⟩
  · refine .inr ⟨⟨u, hu, List.mem_append_left _ hk⟩, ?_⟩
    rcases h' with ⟨rfl, rfl⟩ | ⟨-, binary'⟩
    · exact binary
    · exact binary'

/-- At a token of another kind nothing goes on. -/
theorem stays (h : GoesOn kinds l s e s') (hu : current? s = some u) (hk : u.kind ∉ kinds) :
    e = l ∧ s' = s := by
  rcases h with same | ⟨⟨v, hv, hm⟩, -⟩
  · exact same
  · cases hu.symm.trans hv
    exact absurd hm hk

end GoesOn

/-- What the rule of a chain makes of a tree with an operator is a tree with an operator. -/
def Rule.KeepsBinary : {c : Category} → Rule c → c.Tree → Prop
  | _, exprTail l, e | _, termTail l, e | _, disjunctionTail l, e | _, conjunctionTail l, e
  | _, comparisonTail l, e => l.IsBinary → e.IsBinary
  | _, _, _ => True

/-- What is consumed is the current token, and it leads to one state. -/
theorem Consumes.unique {kind kind' : Kind} {s s₁ s₁' : Tape} {t t' : Token}
    (h : Consumes kind s t s₁) (h' : Consumes kind' s t' s₁') : t = t' ∧ s₁ = s₁' := by
  obtain ⟨current, -, u, advance⟩ := h
  obtain ⟨current', -, u', advance'⟩ := h'
  cases current.symm.trans current'
  cases advance.symm.trans advance'
  exact ⟨rfl, rfl⟩

namespace Rule.Derives
variable {l e : Expr} {s s' : Tape} {t u : Token}

/-- What the rule of a chain is given as a tree with an operator stays one. -/
theorem keepsBinary {c : Category} {rule : Rule c} {a : c.Tree} (h : rule.Derives s a s') :
    rule.KeepsBinary a := by
  induction h with
  | sumEnd | productEnd | disjunctionEnd | conjunctionEnd | comparisonEnd => exact id
  | sumTail _ _ _ _ _ ih | productTail _ _ _ _ _ ih | disjunctionTail _ _ _ _ _ ih
  | conjunctionTail _ _ _ _ _ ih | comparisonTail _ _ _ _ _ ih =>
    exact fun _ => ih ⟨_, _, _, _, rfl⟩
  | _ => trivial

/-- The tail of a sum leaves its tree, or joins it by an additive operator. -/
theorem goesOn_sum (h : (Rule.exprTail l).Derives s e s') :
    GoesOn (Operator.additive.map .op) l s e s' := by
  cases h with
  | sumEnd => exact .inl ⟨rfl, rfl⟩
  | sumTail hk hc _ hl => exact .inr ⟨⟨_, hc.current, hk⟩, hl.keepsBinary ⟨_, _, _, _, rfl⟩⟩

/-- The tail of a product leaves its tree, or joins it by a multiplicative operator. -/
theorem goesOn_product (h : (Rule.termTail l).Derives s e s') :
    GoesOn (Operator.multiplicative.map .op) l s e s' := by
  cases h with
  | productEnd => exact .inl ⟨rfl, rfl⟩
  | productTail hk hc _ hl => exact .inr ⟨⟨_, hc.current, hk⟩, hl.keepsBinary ⟨_, _, _, _, rfl⟩⟩

/-- A power is the factor that it begins with, or joins it by the power sign. -/
theorem goesOn_power (h : Rule.power.Derives s e s') :
    ∃ l s₁, Rule.factor.Derives s l s₁ ∧ GoesOn [.op .pow] l s₁ e s' := by
  cases h with
  | base hf => exact ⟨_, _, hf, .inl ⟨rfl, rfl⟩⟩
  | power hf hu hk =>
    exact ⟨_, _, hf, .inr ⟨⟨_, hu, List.mem_singleton.2 hk⟩, _, _, _, _, rfl⟩⟩

/-- An expression is its first operand, or goes on with an operator of arithmetic. -/
theorem exists_factor (h : Rule.expr.Derives s e s') :
    ∃ l s₁, Rule.factor.Derives s l s₁ ∧ GoesOn Kind.joinsArithmetic l s₁ e s' := by
  cases h with | sum hterm hsum
  cases hterm with | product hpower hproduct
  have rest := hproduct.goesOn_product.trans hsum.goesOn_sum
  obtain ⟨l, s₁, hf, first⟩ := hpower.goesOn_power
  exact ⟨l, s₁, hf, first.trans rest⟩

/-- The tail of a chain of comparisons leaves its tree, or joins it by a relational operator. -/
theorem goesOn_comparison (h : (Rule.comparisonTail l).Derives s e s') :
    GoesOn (Operator.relational.map .op) l s e s' := by
  cases h with
  | comparisonEnd => exact .inl ⟨rfl, rfl⟩
  | comparisonTail hk hc _ hl => exact .inr ⟨⟨_, hc.current, hk⟩, hl.keepsBinary ⟨_, _, _, _, rfl⟩⟩

/-- The tail of a conjunction leaves its tree, or joins it by `and`. -/
theorem goesOn_conjunction (h : (Rule.conjunctionTail l).Derives s e s') :
    GoesOn [.op .and] l s e s' := by
  cases h with
  | conjunctionEnd => exact .inl ⟨rfl, rfl⟩
  | conjunctionTail hk hc _ hl =>
    exact .inr ⟨⟨_, hc.current, hk⟩, hl.keepsBinary ⟨_, _, _, _, rfl⟩⟩

/-- The tail of a disjunction leaves its tree, or joins it by `or`. -/
theorem goesOn_disjunction (h : (Rule.disjunctionTail l).Derives s e s') :
    GoesOn [.op .or] l s e s' := by
  cases h with
  | disjunctionEnd => exact .inl ⟨rfl, rfl⟩
  | disjunctionTail hk hc _ hl =>
    exact .inr ⟨⟨_, hc.current, hk⟩, hl.keepsBinary ⟨_, _, _, _, rfl⟩⟩

/-- A condition without a negation is its first operand, or goes on with a comparison or with an
operator of logic. -/
theorem exists_comparand (h : Rule.disjunction.Derives s e s') (ht : current? s = some t)
    (hk : t.kind ≠ .op .not) :
    ∃ l s₁, Rule.comparand.Derives s l s₁ ∧ GoesOn Kind.joinsConditions l s₁ e s' := by
  cases h with | disjunction hconjunction hor
  cases hconjunction with | conjunction hnegation hand
  cases hnegation with
  | negation hn hc =>
    cases ht.symm.trans hc.current
    exact absurd hn hk
  | positive _ _ hcomparison =>
    cases hcomparison with | comparison hl hrel
    have logic := hand.goesOn_conjunction.trans hor.goesOn_disjunction
    exact ⟨_, _, hl, hrel.goesOn_comparison.trans logic⟩

/-- An operand is a condition if a token comes after it that ends one. -/
theorem disjunction_of_comparand (h : Rule.comparand.Derives s e s') (ht : current? s = some t)
    (hk : t.kind ≠ .op .not) (hu : current? s' = some u) (he : u.kind ∈ Kind.afterOperand) :
    Rule.disjunction.Derives s e s' := by
  have ends : ∀ k ∈ Kind.afterOperand, k ∉ [Operator.or].map Kind.op ∧
      k ∉ [Operator.and].map Kind.op ∧ k ∉ Operator.relational.map Kind.op := by decide
  obtain ⟨hor, hand, hrel⟩ := ends _ he
  have comparison := Rule.Derives.comparison h (.comparisonEnd hu hrel)
  have negation := Rule.Derives.positive ht hk comparison
  have conjunction := Rule.Derives.conjunction negation (.conjunctionEnd hu hand)
  exact .disjunction conjunction (.disjunctionEnd hu hor)

/-- An operand of arithmetic begins with a token that can begin one, or is missing at the end. -/
theorem first_of_factor (h : Rule.factor.Derives s e s') (ht : current? s = some t) :
    t.kind ∈ Kind.exprStart ∨ t.kind = .eof ∧ s' = s := by
  cases h with
  | number hk hc | string hk hc | bool hk hc | group hk hc | exponent hk hc =>
    cases ht.symm.trans hc.current
    exact .inl (by rw [hk]; decide)
  | name hc hk =>
    cases ht.symm.trans hc
    exact .inl (by rw [hk]; decide)
  | sign hk hc =>
    cases ht.symm.trans hc.current
    rcases hk with hk | hk <;> exact .inl (by rw [hk]; decide)
  | missing hc hk =>
    cases ht.symm.trans hc
    exact .inr ⟨hk, rfl⟩

/-- At the end of the input nothing is read as an expression. -/
theorem eq_of_eof (h : Rule.expr.Derives s e s') (ht : current? s = some t) (hk : t.kind = .eof) :
    s' = s := by
  obtain ⟨l, s₁, hl, rest⟩ := h.exists_factor
  rcases hl.first_of_factor ht with first | ⟨-, rfl⟩
  · rw [hk] at first
    exact absurd first (by decide)
  · exact (rest.stays ht (by rw [hk]; decide)).2

end Rule.Derives

/-! ## The first operand -/

/-- Before the end of the input there is another token. -/
theorem Complete.tail {t : Token} {ts : List Token} (h : Complete (t :: ts)) (ht : t.kind ≠ .eof) :
    Complete ts ∧ ts ≠ [] := by
  cases h with
  | ended he => exact absurd he ht
  | token _ _ hts =>
    refine ⟨hts, ?_⟩
    rintro rfl
    cases hts

section
variable {ts : List Token} {t u v : Token} {l l' e a : Expr} {s s₁ s₂ s' : Tape}

/-- A rule comes to one tree and one state. -/
theorem Rule.Derives.unique {c : Category} {rule : Rule c} {a b : c.Tree}
    (h : rule.Derives s a s₁) (h' : rule.Derives s b s₂) : a = b ∧ s₁ = s₂ :=
  h.parses.unique h'.parses

/-- A truth value is a whole operand. -/
theorem truth_of_first (hs : Complete (t :: ts)) (hk : t.kind = .bool) :
    Rule.factor.Derives (Tape.mk (t :: ts)) (.leaf .bool t.value t.pos) (Tape.mk ts) ∧
      Rule.comparand.Derives (Tape.mk (t :: ts)) (.leaf .bool t.value t.pos) (Tape.mk ts) := by
  have consumes := Tape.consumes_of_kind (hs.tail (by rw [hk]; nofun)).2 hk
  exact ⟨.bool hk consumes, .truth hk consumes⟩

/-- What follows a parenthesis that an operand begins with is an expression up to the closing one,
and is not the end of the input. -/
theorem group_of_first (hs : Complete (t :: ts)) (hk : t.kind = .op .lparen)
    (h : Rule.factor.Derives (Tape.mk (t :: ts)) l s') :
    ∃ e s₁ c w, l = .group e t.pos ∧ Rule.expr.Derives (Tape.mk ts) e s₁ ∧
      Consumes (.op .rparen) s₁ c s' ∧ c.kind = .op .rparen ∧
      ts.head? = some w ∧ w.kind ≠ .eof := by
  obtain ⟨complete, nonempty⟩ := hs.tail (by rw [hk]; nofun)
  obtain ⟨w, us, rfl⟩ := List.exists_cons_of_ne_nil nonempty
  have opening := Tape.consumes_of_kind nonempty hk
  cases h with
  | @group _ _ _ e s₁ c _ _ ho he hc =>
    obtain ⟨rfl, rfl⟩ := ho.unique opening
    have inner : Covered _ _ _ := he.covers complete
    have closing := inner.complete.kind_eq hc (by nofun)
    refine ⟨e, s₁, c, w, rfl, he, hc, closing, rfl, fun hw => ?_⟩
    cases he.eq_of_eof rfl hw
    cases (show some w = some c from hc.current)
    rw [hw] at closing
    cases closing
  | number hk' hc | string hk' hc | bool hk' hc | exponent hk' hc =>
    cases hc.current.symm.trans opening.current
    rw [hk] at hk'
    cases hk'
  | name hc hk' | missing hc hk' =>
    cases hc.symm.trans opening.current
    rw [hk] at hk'
    cases hk'
  | sign hk' hc =>
    cases hc.current.symm.trans opening.current
    rw [hk] at hk'
    rcases hk' with hk' | hk' <;> cases hk'

/-- In a condition the same parenthesis is followed by a condition. -/
theorem condition_of_first (hs : Complete (t :: ts)) (hk : t.kind = .op .lparen)
    (h : Rule.comparand.Derives (Tape.mk (t :: ts)) l s') :
    ∃ e s₁ c, l = .group e t.pos ∧ Rule.disjunction.Derives (Tape.mk ts) e s₁ ∧
      Consumes (.op .rparen) s₁ c s' ∧ c.kind = .op .rparen := by
  obtain ⟨complete, nonempty⟩ := hs.tail (by rw [hk]; nofun)
  have opening := Tape.consumes_of_kind nonempty hk
  cases h with
  | @condition _ _ _ e s₁ c _ _ ho he hc =>
    obtain ⟨rfl, rfl⟩ := ho.unique opening
    have inner : Covered _ _ _ := he.covers complete
    exact ⟨e, s₁, c, rfl, he, hc, inner.complete.kind_eq hc (by nofun)⟩
  | truth hk' hc | opposite hk' hc =>
    cases hc.current.symm.trans opening.current
    rw [hk] at hk'
    cases hk'
  | value hc _ _ hp =>
    cases hc.symm.trans opening.current
    exact absurd hk hp

/-- An expression that is complete as a condition has not gone on after its first operand. -/
theorem GoesOn.of_condition (h : GoesOn Kind.joinsArithmetic l s e s')
    (hc : GoesOn Kind.joinsConditions l' s a s₁) (hv : current? s₁ = some v)
    (hk : v.kind ∈ Kind.afterOperand) : e = l ∧ s' = s := by
  have apart : ∀ k ∈ Kind.joinsArithmetic, k ∉ Kind.joinsConditions ∧ k ∉ Kind.afterOperand := by
    decide
  refine h.resolve_right ?_
  rintro ⟨⟨u, hu, hj⟩, -⟩
  obtain ⟨-, rfl⟩ := hc.stays hu (apart _ hj).1
  cases hu.symm.trans hv
  exact (apart _ hj).2 hk

/-! ## Expressions that stand alone -/

/-- An expression that stands alone is a condition. -/
theorem Expr.StandsAlone.disjunction (hs : Complete ts) (ht : ts.head? = some t)
    (hne : t.kind ≠ .eof) (h : Rule.expr.Derives (Tape.mk ts) e s') (hu : current? s' = some u)
    (hk : u.kind ∈ Kind.afterOperand) (ha : e.StandsAlone ts) :
    Rule.disjunction.Derives (Tape.mk ts) e s' := by
  induction ts generalizing e s' t u with
  | nil => cases ht
  | cons t ts ih =>
    cases ht
    obtain ⟨l, s₁, hl, rest⟩ := h.exists_factor
    have current : current? (Tape.mk (t :: ts)) = some t := rfl
    have first := (hl.first_of_factor current).resolve_right fun h => hne h.1
    have not : t.kind ≠ .op .not := by
      intro hn
      rw [hn] at first
      exact absurd first (by decide)
    refine Rule.Derives.disjunction_of_comparand ?_ current not hu hk
    by_cases lead : t.kind = .bool ∨ t.kind = .op .lparen
    · obtain ⟨rfl, rfl⟩ : e = l ∧ s' = s₁ := by
        refine rest.resolve_right ?_
        rintro ⟨-, op, l, r, pos, rfl⟩
        exact lead.elim ha.1 ha.2
      rcases lead with bool | paren
      · obtain ⟨factor, comparand⟩ := truth_of_first hs bool
        obtain ⟨rfl, rfl⟩ := hl.unique factor
        exact comparand
      · obtain ⟨inner, s₁, c, w, rfl, he, hc, closing, hw, hwe⟩ := group_of_first hs paren hl
        obtain ⟨complete, nonempty⟩ := hs.tail hne
        have condition := ih complete hw hwe he hc.current (by rw [closing]; decide) (ha paren)
        exact .condition paren (Tape.consumes_of_kind nonempty paren) condition hc
    · obtain ⟨bool, paren⟩ := not_or.1 lead
      exact .value current first bool paren h

/-- An expression that is a condition too stands alone. -/
theorem standsAlone_of_disjunction (hs : Complete ts) (ht : ts.head? = some t)
    (hne : t.kind ≠ .eof) (h : Rule.expr.Derives (Tape.mk ts) e s')
    (hc : Rule.disjunction.Derives (Tape.mk ts) a s₁) (hv : current? s₁ = some v)
    (hk : v.kind ∈ Kind.afterOperand) : e.StandsAlone ts := by
  induction ts generalizing e a s₁ s' t v with
  | nil => cases ht
  | cons t ts ih =>
    cases ht
    have current : current? (Tape.mk (t :: ts)) = some t := rfl
    obtain ⟨l, s₂, hl, rest⟩ := h.exists_factor
    have first := (hl.first_of_factor current).resolve_right fun h => hne h.1
    have not : t.kind ≠ .op .not := by
      intro hn
      rw [hn] at first
      exact absurd first (by decide)
    obtain ⟨l', s₃, hl', rest'⟩ := hc.exists_comparand current not
    by_cases bool : t.kind = .bool
    · obtain ⟨factor, comparand⟩ := truth_of_first hs bool
      obtain ⟨rfl, rfl⟩ := hl.unique factor
      obtain ⟨rfl, rfl⟩ := hl'.unique comparand
      obtain ⟨rfl, -⟩ := rest.of_condition rest' hv hk
      trivial
    by_cases paren : t.kind = .op .lparen
    · obtain ⟨complete, -⟩ := hs.tail hne
      obtain ⟨inner, s₄, c, w, rfl, he, hr, closing, hw, hwe⟩ := group_of_first hs paren hl
      obtain ⟨inner', s₅, c', rfl, he', hr', closing'⟩ := condition_of_first hs paren hl'
      have alone := ih complete hw hwe he he' hr'.current (by rw [closing']; decide)
      -- The two rules read the same between the parentheses, so what comes after is the same.
      have condition := alone.disjunction complete hw hwe he hr.current (by rw [closing]; decide)
      obtain ⟨rfl, rfl⟩ := he'.unique condition
      obtain ⟨rfl, rfl⟩ := hr.unique hr'
      obtain ⟨rfl, -⟩ := rest.of_condition rest' hv hk
      exact fun _ => alone
    · cases e with
      | group => exact fun h => absurd h paren
      | binary => exact ⟨bool, paren⟩
      | leaf | call | unary => trivial

/-- What comes before the end of the input is followed by a token that can come after an operand. -/
theorem exists_current_of_end (hs : Complete s.tokens) (h : Rule.end_.Derives s () s') :
    ∃ u, current? s = some u ∧ u.kind ∈ Kind.afterOperand := by
  cases h with | end_ hx hc
  cases hx with
  | noTerminators _ _ => exact ⟨_, hc.current, by rw [hs.kind_eq hc (by nofun)]; decide⟩
  | terminators hk ht _ => exact ⟨_, ht.current, by rw [hk]; decide⟩

end

/-! ## Whole texts -/

/-- A text that is parsed as an expression and does not begin with its end is parsed as a condition
if its leading truth value or parenthesis stands alone, and then as the same tree. Otherwise it is
rejected. -/
theorem parse_condition_of_expression {r : Radix} {source : String} {t : Token} {ts : List Token}
    {e : Expr} (tokens : tokenize .standard r source = .ok (t :: ts)) (first : t.kind ≠ .eof)
    (parsed : parse .standard r .expression source = .ok (.expr e)) :
    (e.StandsAlone (t :: ts) → parse .standard r .condition source = .ok (.expr e)) ∧
      (¬e.StandsAlone (t :: ts) → ∃ fault, parse .standard r .condition source = .error fault) := by
  have noEnd := KeywordTable.noEnd_standard
  have ended := ended_of_tokenize noEnd tokens
  have complete := complete_of_tokenize tokens
  rw [parse_eq_parseTokens noEnd tokens, parseTokens_eq_ok_iff ended] at parsed
  rw [parse_eq_parseTokens noEnd tokens]
  obtain ⟨s', h⟩ := parsed
  cases h with | wholeExpression he hx
  have read : Covered _ _ _ := he.covers complete
  obtain ⟨u, hu, hk⟩ := exists_current_of_end read.complete hx
  constructor
  · intro alone
    have condition := alone.disjunction complete rfl first he hu hk
    exact (parseTokens_eq_ok_iff ended).2 ⟨s', .wholeCondition condition hx⟩
  · intro joined
    cases hp : parseTokens .condition (t :: ts) with
    | error fault => exact ⟨fault, rfl⟩
    | ok node =>
      obtain ⟨s₁, h⟩ := (parseTokens_eq_ok_iff ended).1 hp
      cases h with | wholeCondition hc hx
      have read : Covered _ _ _ := hc.covers complete
      obtain ⟨v, hv, hk⟩ := exists_current_of_end read.complete hx
      exact absurd (standsAlone_of_disjunction complete rfl first he hc hv hk) joined

/-- A name in parentheses is a condition. -/
theorem parse_condition_of_expression_group :
    tokenize .standard .decimal "(a)" = .ok [⟨.op .lparen, .text "(", ⟨0, 1, 1⟩⟩,
        ⟨.ident, .text "a", ⟨1, 1, 2⟩⟩, ⟨.op .rparen, .text ")", ⟨2, 1, 3⟩⟩,
        ⟨.eof, .text "EOF", ⟨3, 1, 4⟩⟩] ∧
      parse .standard .decimal .condition "(a)" =
        .ok (.expr (.group (.leaf .symbol (.text "a") 1) 0)) := by
  have tokens : tokenize .standard .decimal "(a)" = .ok [⟨.op .lparen, .text "(", ⟨0, 1, 1⟩⟩,
      ⟨.ident, .text "a", ⟨1, 1, 2⟩⟩, ⟨.op .rparen, .text ")", ⟨2, 1, 3⟩⟩,
      ⟨.eof, .text "EOF", ⟨3, 1, 4⟩⟩] := by decide +kernel
  have parsed : parse .standard .decimal .expression "(a)" =
      .ok (.expr (.group (.leaf .symbol (.text "a") 1) 0)) := by rfl
  obtain ⟨accepted, -⟩ := parse_condition_of_expression tokens (by decide) parsed
  exact ⟨tokens, accepted fun _ => trivial⟩

/-- Not every expression is a condition: a parenthesis that is joined to a second operand is read up
to its end, and the operator after it is rejected. -/
theorem not_parse_condition_of_expression :
    ¬∀ (r : Radix) (source : String) (t : Token) (ts : List Token) (e : Expr),
      tokenize .standard r source = .ok (t :: ts) → t.kind ≠ .eof →
        parse .standard r .expression source = .ok (.expr e) →
          parse .standard r .condition source = .ok (.expr e) := by
  intro same
  have tokens : tokenize .standard .decimal "(a)+b" = .ok [⟨.op .lparen, .text "(", ⟨0, 1, 1⟩⟩,
      ⟨.ident, .text "a", ⟨1, 1, 2⟩⟩, ⟨.op .rparen, .text ")", ⟨2, 1, 3⟩⟩,
      ⟨.op .add, .text "+", ⟨3, 1, 4⟩⟩, ⟨.ident, .text "b", ⟨4, 1, 5⟩⟩,
      ⟨.eof, .text "EOF", ⟨5, 1, 6⟩⟩] := by decide +kernel
  have parsed : parse .standard .decimal .expression "(a)+b" = .ok (.expr
      (.binary ⟨.op .add, .text "+", ⟨3, 1, 4⟩⟩ (.group (.leaf .symbol (.text "a") 1) 0)
        (.leaf .symbol (.text "b") 4) 0)) :=
    (parse_eq_parseTokens KeywordTable.noEnd_standard tokens).trans rfl
  have rejected : parse .standard .decimal .condition "(a)+b" =
      .error (.atPosition (.tokenMismatch .eof (.op .add)) 3) := by rfl
  have accepted := same .decimal "(a)+b" _ _ _ tokens (by decide) parsed
  cases rejected.symm.trans accepted

end Quill
