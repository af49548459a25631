import Quill.Proofs.Arithmetic

/-!
# Conditions are read back

The conditions are sorted as the arithmetic trees are (`Expr.Condition`): a disjunction has
conjunctions for operands, a conjunction negations, a negation a chain of comparisons. Every
condition, written down, is parsed as itself (`parse_written_condition`).

Two rules consume the mark of a negation. One of them takes it before a chain of comparisons and
reads on with a negation; the other takes it inside of a chain, and what it negates is the rest of
the chain. So a negated operand is the last one of its chain, and a chain that begins with the mark
has no other operand (`Expr.Condition.first_ne_not`). A tree that is both a chain and a negation is
read by either rule, which is why `Tier.Reads` says of a chain what both of them do.
-/

namespace Quill

open TokenReader

/-! ## Conditions -/

/-- How tight a condition is. -/
inductive Tier where
  /-- A truth value, a condition in parentheses, a negated chain or an arithmetic value. -/
  | comparand
  /-- A chain of comparisons. -/
  | comparison
  | negation | conjunction | disjunction
  deriving DecidableEq

/-- The last operand of a chain of comparisons. -/
def Expr.lastOperand : Expr → Expr
  | .binary op l r pos =>
    if op.kind ∈ Operator.relational.map .op then r else .binary op l r pos
  | e => e

/-- Whether the tree is a negation. -/
def Expr.IsNegation : Expr → Prop
  | .unary op _ _ => op.kind = .op .not
  | _ => False

/-- Whether the tree is a condition that can stand at a tier. -/
inductive Expr.Condition : Tier → Expr → Prop
  | truth {b : Bool} {pos : Int} : (Expr.leaf .bool (.bool b) pos).Condition .comparand
  | group {e : Expr} {pos : Int} : e.Condition .disjunction →
      (Expr.group e pos).Condition .comparand
  | opposite {op : Token} {e : Expr} {pos : Int} : op.kind = .op .not → e.Condition .comparison →
      (Expr.unary op e pos).Condition .comparand
  | value {e : Expr} : e.Arithmetic .sum → e.first ≠ .bool → e.first ≠ .op .lparen →
      e.Condition .comparand
  | comparand {e : Expr} : e.Condition .comparand → e.Condition .comparison
  | comparison {op : Token} {l r : Expr} {pos : Int} :
      op.kind ∈ Operator.relational.map .op → l.Condition .comparison →
      ¬l.lastOperand.IsNegation → r.Condition .comparand →
      (Expr.binary op l r pos).Condition .comparison
  | not {op : Token} {e : Expr} {pos : Int} : op.kind = .op .not → e.Condition .negation →
      (Expr.unary op e pos).Condition .negation
  | positive {e : Expr} : e.Condition .comparison → e.Condition .negation
  | negation {e : Expr} : e.Condition .negation → e.Condition .conjunction
  | and {op : Token} {l r : Expr} {pos : Int} : op.kind = .op .and → l.Condition .conjunction →
      r.Condition .negation → (Expr.binary op l r pos).Condition .conjunction
  | conjunction {e : Expr} : e.Condition .conjunction → e.Condition .disjunction
  | or {op : Token} {l r : Expr} {pos : Int} : op.kind = .op .or → l.Condition .disjunction →
      r.Condition .conjunction → (Expr.binary op l r pos).Condition .disjunction

/-! ## First tokens -/

/-- A condition begins with a negation, or as an expression does. -/
theorem Expr.Condition.first_mem {tier : Tier} {e : Expr} (h : e.Condition tier) :
    e.first ∈ Kind.op .not :: Kind.exprStart := by
  induction h with
  | truth => exact (by decide : Kind.bool ∈ Kind.op .not :: Kind.exprStart)
  | group => exact (by decide : Kind.op .lparen ∈ Kind.op .not :: Kind.exprStart)
  | opposite ho | not ho =>
    rw [first, ho]
    exact List.mem_cons_self
  | value ha => exact List.mem_cons_of_mem _ ha.first_mem_exprStart
  | comparand _ ih | positive _ ih | negation _ ih | conjunction _ ih => exact ih
  | comparison _ _ _ _ ih | and _ _ _ ih | or _ _ _ ih => exact ih

/-- A condition that is written out has a first token, of the kind that it begins with. -/
theorem Expr.Condition.exists_first {tier : Tier} {e : Expr} (h : e.Condition tier)
    {ts : List Token} (hw : e.Written (ts.map Token.word)) :
    ∃ t ts', ts = t :: ts' ∧ t.kind = e.first := by
  refine hw.exists_first fun he => ?_
  have hm := h.first_mem
  rw [he] at hm
  exact absurd hm (by decide)

/-- An arithmetic tree is no chain of comparisons. -/
theorem Expr.Arithmetic.lastOperand_eq {level : Level} {e : Expr} (h : e.Arithmetic level) :
    e.lastOperand = e := by
  have multiplicative : ∀ k ∈ Operator.multiplicative.map Kind.op,
      k ∉ Operator.relational.map Kind.op := by decide
  have additive : ∀ k ∈ Operator.additive.map Kind.op,
      k ∉ Operator.relational.map Kind.op := by decide
  induction h with
  | power ho => exact if_neg (by rw [ho]; decide)
  | product ho => exact if_neg (multiplicative _ ho)
  | sum ho => exact if_neg (additive _ ho)
  | leaf | call | group | sign => rfl
  | operand _ ih | signed _ ih | powers _ ih | products _ ih => exact ih

/-- A comparand is its own last operand. -/
theorem Expr.Condition.lastOperand_eq {e : Expr} (h : e.Condition .comparand) :
    e.lastOperand = e := by
  cases h with
  | truth | group | opposite => rfl
  | value ha => exact ha.lastOperand_eq

/-- A chain of comparisons whose last operand is no negation does not begin with one. -/
theorem Expr.Condition.first_ne_not {tier : Tier} {e : Expr} (h : e.Condition tier)
    (ht : tier = .comparand ∨ tier = .comparison) (hn : ¬e.lastOperand.IsNegation) :
    e.first ≠ .op .not := by
  induction h with
  | truth | group => exact fun h => nomatch h
  | opposite ho => exact absurd ho hn
  | value ha => exact ha.first_ne (by decide)
  | comparand _ ih => exact ih (.inl rfl) hn
  | comparison _ _ hl _ ih => exact ih (.inr rfl) hl
  | not | positive | negation | and | conjunction | or => exact absurd ht (by decide)

/-! ## Reading -/

/-- The kinds of token that go on with a condition of the tier. -/
def Tier.goesOn : Tier → List Kind
  | comparand => Level.sum.goesOn
  | comparison | negation => Level.sum.goesOn ++ Operator.relational.map .op
  | conjunction => Level.sum.goesOn ++ Operator.relational.map .op ++ [.op .and]
  | disjunction => Level.sum.goesOn ++ Operator.relational.map .op ++ [.op .and] ++ [.op .or]

/-- The rule for negations reads the tokens as the tree. -/
def ReadsNegation (e : Expr) (ts : List Token) : Prop := ∀ u us, u.kind ∉ Tier.negation.goesOn →
  Rule.negation.Derives (Tape.mk (ts ++ u :: us)) e ⟨u :: us⟩

/-- The rule of the tier reads the tokens as the tree, whatever comes next that does not go on with
it. After a chain further operands may follow, though none is compared with a negation that `ends`
the chain. A chain is read by the rule for negations as well. -/
def Tier.Reads (ends : Prop) : Tier → Expr → List Token → Prop
  | comparand, e, ts => ReadsNegation e ts ∧ ∀ u us, u.kind ∉ Level.sum.goesOn →
    (ends → u.kind ∉ Operator.relational.map .op) →
      Rule.comparand.Derives (Tape.mk (ts ++ u :: us)) e ⟨u :: us⟩
  | comparison, e, ts => ReadsNegation e ts ∧ ∀ u us, u.kind ∉ Level.sum.goesOn →
    (ends → u.kind ∉ Operator.relational.map .op) → ∀ a s,
      (Rule.comparisonTail e).Derives ⟨u :: us⟩ a s →
        Rule.comparison.Derives (Tape.mk (ts ++ u :: us)) a s
  | negation, e, ts => ReadsNegation e ts
  | conjunction, e, ts => ∀ u us, u.kind ∉ Tier.negation.goesOn → ∀ a s,
    (Rule.conjunctionTail e).Derives ⟨u :: us⟩ a s →
      Rule.conjunction.Derives (Tape.mk (ts ++ u :: us)) a s
  | disjunction, e, ts => ∀ u us, u.kind ∉ Tier.conjunction.goesOn → ∀ a s,
    (Rule.disjunctionTail e).Derives ⟨u :: us⟩ a s →
      Rule.disjunction.Derives (Tape.mk (ts ++ u :: us)) a s

section
variable {ends : Prop} {e : Expr} {ts us : List Token} {u : Token}

/-- What is read as a chain of comparisons is derived as one before a token that does not go on with
it. -/
theorem Tier.Reads.comparison (h : Tier.comparison.Reads ends e ts)
    (hu : u.kind ∉ Tier.comparison.goesOn) :
    Rule.comparison.Derives (Tape.mk (ts ++ u :: us)) e ⟨u :: us⟩ := by
  simp only [goesOn, List.mem_append, not_or] at hu
  exact h.2 u us hu.1 (fun _ => hu.2) _ _ (.comparisonEnd rfl hu.2)

/-- What is read as a conjunction is derived as one before a token that does not go on with it. -/
theorem Tier.Reads.conjunction (h : Tier.conjunction.Reads ends e ts)
    (hu : u.kind ∉ Tier.conjunction.goesOn) :
    Rule.conjunction.Derives (Tape.mk (ts ++ u :: us)) e ⟨u :: us⟩ := by
  rw [goesOn, List.mem_append, not_or] at hu
  exact h u us hu.1 _ _ (.conjunctionEnd rfl hu.2)

/-- What is read as a disjunction is derived as one before a token that does not go on with it. -/
theorem Tier.Reads.disjunction (h : Tier.disjunction.Reads ends e ts)
    (hu : u.kind ∉ Tier.disjunction.goesOn) :
    Rule.disjunction.Derives (Tape.mk (ts ++ u :: us)) e ⟨u :: us⟩ := by
  rw [goesOn, List.mem_append, not_or] at hu
  exact h u us hu.1 _ _ (.disjunctionEnd rfl hu.2)

/-- An operand of comparisons that begins with no negation is read by the rule for negations as a
chain of its own. -/
theorem readsNegation_of_comparand {t : Token} (ht : t.kind ≠ .op .not)
    (h : ∀ u us, u.kind ∉ Level.sum.goesOn →
      Rule.comparand.Derives (Tape.mk (t :: ts ++ u :: us)) e ⟨u :: us⟩) :
    ReadsNegation e (t :: ts) := by
  intro u us hu
  simp only [Tier.goesOn, List.mem_append, not_or] at hu
  refine .positive rfl ht (.comparison (h u us ?_) (.comparisonEnd rfl hu.2))
  simpa only [List.mem_append, not_or] using hu.1

/-- A chain of comparisons is read as a chain if its operands are read. -/
theorem Tier.Reads.compare {op t : Token} {o : Operator} {l l' r r' : Expr} {pos : Int}
    {tl tr : List Token} (ho : op.kind ∈ Operator.relational.map .op)
    (hl : l.Condition .comparison) (hn : ¬l.lastOperand.IsNegation) (hr : r.Condition .comparand)
    (hop : op.kind = .op o) (ht : t.kind = .op o) (hwl : l.Written (tl.map Token.word))
    (readsl : Tier.comparison.Reads l.lastOperand.IsNegation l' tl)
    (readsr : Tier.comparand.Reads r.lastOperand.IsNegation r' tr) :
    Tier.comparison.Reads (Expr.binary op l r pos).lastOperand.IsNegation
      (.binary t l' r' l'.pos) (tl ++ t :: tr) := by
  have last : (Expr.binary op l r pos).lastOperand = r.lastOperand := by
    rw [hr.lastOperand_eq]
    exact if_pos ho
  have hk : t.kind ∈ Operator.relational.map .op := by rwa [ht, ← hop]
  have continues : ∀ k ∈ Operator.relational.map Kind.op, k ∉ Level.sum.goesOn := by decide
  have chain : ∀ u us, u.kind ∉ Level.sum.goesOn →
      (r.lastOperand.IsNegation → u.kind ∉ Operator.relational.map .op) → ∀ a s,
      (Rule.comparisonTail (.binary t l' r' l'.pos)).Derives ⟨u :: us⟩ a s →
        Rule.comparison.Derives (Tape.mk (tl ++ t :: tr ++ u :: us)) a s := by
    intro u us hu hn' a s ha
    rw [List.append_assoc]
    exact readsl.2 t _ (continues _ hk) (fun h => absurd h hn) a s (.comparisonTail hk
      (Tape.consumes (by simp) (Token.hasKind_anyOp ht)) (readsr.2 u us hu hn') ha)
  refine ⟨?_, ?_⟩
  · obtain ⟨v, vs, rfl, hv⟩ := hl.exists_first hwl
    intro u us hu
    simp only [Tier.goesOn, List.mem_append, not_or] at hu
    refine .positive rfl ?_ (chain u us ?_ (fun _ => hu.2) _ _ (.comparisonEnd rfl hu.2))
    · rw [hv]
      exact hl.first_ne_not (.inr rfl) hn
    · simpa only [List.mem_append, not_or] using hu.1
  · rw [last]
    exact chain

end

/-- The tokens of a condition are read as the condition. -/
theorem Expr.Condition.reads {tier : Tier} {e : Expr} (h : e.Condition tier) {ts : List Token}
    (hw : e.Written (ts.map Token.word)) :
    ∃ e', e'.same e = true ∧ tier.Reads e.lastOperand.IsNegation e' ts := by
  induction h generalizing ts with
  | @truth b pos =>
    obtain ⟨t, rfl, ht, hv⟩ := hw.tokens_leaf rfl
    refine ⟨.leaf .bool t.value t.pos, by simp [Expr.same, hv, Value.same], ?_⟩
    have reads : ∀ u us, Rule.comparand.Derives (Tape.mk ([t] ++ u :: us))
        (.leaf .bool t.value t.pos) ⟨u :: us⟩ :=
      fun u us => .truth ht (Tape.consumes_of_kind (by simp) ht)
    exact ⟨readsNegation_of_comparand (by rw [ht]; decide) fun u us _ => reads u us,
      fun u us _ _ => reads u us⟩
  | @group e pos _ ih =>
    obtain ⟨t, te, t', rfl, ht, ht', he⟩ := hw.tokens_group
    obtain ⟨e', same, reads⟩ := ih he
    refine ⟨.group e' t.pos, by rwa [Expr.same], ?_⟩
    have reads : ∀ u us, Rule.comparand.Derives (Tape.mk (t :: (te ++ [t']) ++ u :: us))
        (.group e' t.pos) ⟨u :: us⟩ := by
      intro u us
      rw [List.cons_append, List.append_assoc]
      refine .condition ht (Tape.consumes_of_kind (by simp) ht)
        (reads.disjunction ?_) (Tape.consumes_of_kind (by simp) ht')
      rw [ht']
      decide
    exact ⟨readsNegation_of_comparand (by rw [ht]; decide) fun u us _ => reads u us,
      fun u us _ _ => reads u us⟩
  | @opposite op e pos ho _ ih =>
    obtain ⟨o, t, te, rfl, hop, ht, he⟩ := hw.tokens_unary
    obtain ⟨e', same, reads⟩ := ih he
    have hk : t.kind = .op .not := by rw [ht, ← hop, ho]
    have consumes : ∀ u us, Consumes (.op .not) (Tape.mk (t :: (te ++ u :: us))) t
        ⟨te ++ u :: us⟩ := fun u us => Tape.consumes_of_kind (by simp) hk
    refine ⟨.unary t e' t.pos, Expr.same_unary ht hop same, ?_, ?_⟩
    · exact fun u us hu => .negation hk (consumes u us) (reads.1 u us hu)
    · intro u us hu hn
      refine .opposite hk (consumes u us) (reads.comparison ?_)
      exact List.not_mem_append hu (hn ho)
  | @value e ha hb hp =>
    obtain ⟨e', same, reads⟩ := ha.reads hw
    obtain ⟨t, ts, rfl, ht⟩ := hw.exists_first (ha.first_ne (by decide))
    rw [← ht] at hb hp
    have hm : t.kind ∈ Kind.exprStart := by
      rw [ht]
      exact ha.first_mem_exprStart
    have value : ∀ u us, u.kind ∉ Level.sum.goesOn →
        Rule.comparand.Derives (Tape.mk (t :: ts ++ u :: us)) e' ⟨u :: us⟩ :=
      fun u us hu => .value rfl hm hb hp (reads.expr hu)
    refine ⟨e', same, readsNegation_of_comparand ?_ value, fun u us hu _ => value u us hu⟩
    rw [ht]
    exact ha.first_ne (by decide)
  | @comparand e _ ih =>
    obtain ⟨e', same, negation, reads⟩ := ih hw
    exact ⟨e', same, negation, fun u us hu hn a s ha => .comparison (reads u us hu hn) ha⟩
  | @comparison op l r pos ho hl hn hr ihl ihr =>
    obtain ⟨o, tl, t, tr, rfl, hop, ht, hwl, hwr⟩ := hw.tokens_binary
    obtain ⟨l', samel, readsl⟩ := ihl hwl
    obtain ⟨r', samer, readsr⟩ := ihr hwr
    exact ⟨.binary t l' r' l'.pos, Expr.same_binary ht hop samel samer,
      readsl.compare ho hl hn hr hop ht hwl readsr⟩
  | @not op e pos ho _ ih =>
    obtain ⟨o, t, te, rfl, hop, ht, he⟩ := hw.tokens_unary
    obtain ⟨e', same, reads⟩ := ih he
    have hk : t.kind = .op .not := by rw [ht, ← hop, ho]
    refine ⟨.unary t e' t.pos, Expr.same_unary ht hop same, ?_⟩
    intro u us hu
    exact .negation hk (Tape.consumes_of_kind (by simp) hk) (reads u us hu)
  | positive _ ih =>
    obtain ⟨e', same, negation, -⟩ := ih hw
    exact ⟨e', same, negation⟩
  | negation _ ih =>
    obtain ⟨e', same, reads⟩ := ih hw
    exact ⟨e', same, fun u us hu a s ha => .conjunction (reads u us hu) ha⟩
  | @and op l r pos ho _ _ ihl ihr =>
    obtain ⟨o, tl, t, tr, rfl, hop, ht, hwl, hwr⟩ := hw.tokens_binary
    obtain ⟨l', samel, readsl⟩ := ihl hwl
    obtain ⟨r', samer, readsr⟩ := ihr hwr
    have hk : t.kind = .op .and := by rw [ht, ← hop, ho]
    refine ⟨.binary t l' r' l'.pos, Expr.same_binary ht hop samel samer, ?_⟩
    intro u us hu a s ha
    rw [List.append_assoc]
    refine readsl t _ ?_ a s (.conjunctionTail ?_
      (Tape.consumes_of_kind (by simp) hk) (readsr u us hu) ha)
    · rw [hk]
      decide
    · rw [hk]
      decide
  | conjunction _ ih =>
    obtain ⟨e', same, reads⟩ := ih hw
    exact ⟨e', same, fun u us hu a s ha => .disjunction (reads.conjunction hu) ha⟩
  | @or op l r pos ho _ _ ihl ihr =>
    obtain ⟨o, tl, t, tr, rfl, hop, ht, hwl, hwr⟩ := hw.tokens_binary
    obtain ⟨l', samel, readsl⟩ := ihl hwl
    obtain ⟨r', samer, readsr⟩ := ihr hwr
    have hk : t.kind = .op .or := by rw [ht, ← hop, ho]
    refine ⟨.binary t l' r' l'.pos, Expr.same_binary ht hop samel samer, ?_⟩
    intro u us hu a s ha
    rw [List.append_assoc]
    refine readsl t _ ?_ a s (.disjunctionTail ?_
      (Tape.consumes_of_kind (by simp) hk) (readsr.conjunction hu) ha)
    · rw [hk]
      decide
    · rw [hk]
      decide

/-! ## Signs -/

/-- What is written of a condition fits where an operand is expected. -/
theorem Expr.Condition.fit {tier : Tier} {e : Expr} (h : e.Condition tier) {ws rest : List Word}
    {previous : Option Kind} (hw : e.Written ws) (hp : ¬EndsOperand previous)
    (hr : FitAfterOperand rest) : Fit previous (ws ++ rest) := by
  induction h generalizing ws rest previous with
  | truth =>
    obtain rfl : ws = [⟨.bool, .bool _⟩] := hw
    have plain : Kind.bool ∉ [Operator.add, .sub, .pos, .neg].map Kind.op := by decide
    exact ⟨signFits_of_not_mem plain, hr .bool (by decide)⟩
  | group _ ih =>
    obtain ⟨inner, hi, rfl⟩ := hw
    exact fit_between (signFits_of_not_mem (by decide))
      (ih hi (by decide) (fitAfterOperand_rparen hr))
  | @opposite op e pos ho _ ih | @not op e pos ho _ ih =>
    obtain ⟨o, operand, hop, he, rfl⟩ := hw
    obtain rfl : o = .not := by rwa [hop, Kind.op.injEq] at ho
    exact ⟨signFits_of_not_mem (by decide), ih he (by decide) hr⟩
  | value ha => exact ha.fit hw hp hr
  | comparand _ ih | positive _ ih | negation _ ih | conjunction _ ih => exact ih hw hp hr
  | @comparison op l r pos ho _ _ _ ihl ihr =>
    obtain ⟨o, left, right, hop, hwl, hwr, rfl⟩ := hw
    have binary : ∀ o ∈ Operator.relational, o ∈ Operator.binary := by decide
    exact fit_join (binary o (Operator.mem_of_kind ho hop)) (ihl hwl hp)
      (fun hp h => ihr hwr hp h) hr
  | @and op l r pos ho _ _ ihl ihr =>
    obtain ⟨o, left, right, hop, hwl, hwr, rfl⟩ := hw
    obtain rfl : o = .and := by rwa [hop, Kind.op.injEq] at ho
    exact fit_join (by decide) (ihl hwl hp) (fun hp h => ihr hwr hp h) hr
  | @or op l r pos ho _ _ ihl ihr =>
    obtain ⟨o, left, right, hop, hwl, hwr, rfl⟩ := hw
    obtain rfl : o = .or := by rwa [hop, Kind.op.injEq] at ho
    exact fit_join (by decide) (ihl hwl hp) (fun hp h => ihr hwr hp h) hr

/-- A condition, written with single blanks between its tokens, is parsed as a condition that agrees
with it. -/
theorem parse_written_condition {c : Expr} (hc : c.Condition .disjunction) {words : List Word}
    (hw : c.Written words) {texts : List (List Char)} (ht : List.Forall₂ Spells texts words) :
    ∃ c', parse .standard .decimal .condition (String.ofList (spaced texts)) = .ok (.expr c') ∧
      c'.same c = true := by
  have fit : Fit none (words ++ []) := hc.fit hw (by decide) fitAfterOperand_nil
  rw [List.append_nil] at fit
  have derives : ∀ (ts : List Token) (u : Token), ts.map Token.word = words → u.kind = .eof →
      ∃ node s, (∃ c', node = .expr c' ∧ c'.same c = true) ∧
        (Rule.entry .condition).Derives (Tape.mk (ts ++ [u])) node s := by
    rintro ts u rfl hu
    obtain ⟨c', same, reads⟩ := hc.reads hw
    refine ⟨.expr c', _, ⟨c', rfl, same⟩,
      .wholeCondition (reads.disjunction ?_) (Tape.derives_end hu)⟩
    rw [hu]
    decide
  obtain ⟨node, parsed, c', rfl, same⟩ := exists_parse_of_layout (layout_spaced ht) fit derives
  exact ⟨c', parsed, same⟩

/-- A negated chain of comparisons beside a truth value. -/
theorem parse_written_condition_conjunction :
    ∃ c', parse .standard .decimal .condition (String.ofList (spaced
        [['!'], ['a'], ['<'], ['b'], ['&', '&'], ['t', 'r', 'u', 'e']])) = .ok (.expr c') ∧
      c'.same (.binary ⟨.op .and, .text "&&", .nowhere⟩
        (.unary ⟨.op .not, .text "!", .nowhere⟩
          (.binary ⟨.op .lt, .text "<", .nowhere⟩ (.leaf .symbol (.text "a") 0)
            (.leaf .symbol (.text "b") 0) 0) 0)
        (.leaf .bool (.bool true) 0) 0) = true := by
  have true_ : Spells "true".toList ⟨.bool, .bool true⟩ := .bool (by decide)
  have a : IsName "a" := by decide
  have b : IsName "b" := by decide
  refine @parse_written_condition _ ?tree [Operator.not.asWord, ⟨.ident, .text "a"⟩,
    Operator.lt.asWord, ⟨.ident, .text "b"⟩, Operator.and.asWord, ⟨.bool, .bool true⟩] ?written _
    ?spelled
  case tree =>
    have symbol : ∀ name, (Expr.leaf .symbol (.text name) 0).Condition .comparand := fun name =>
      .value (.products (.powers (.signed (.operand (.leaf trivial))))) nofun nofun
    exact .conjunction (.and rfl (.negation (.not rfl (.positive (.comparison (by decide)
      (.comparand (symbol "a")) id (symbol "b"))))) (.positive (.comparand .truth)))
  case written =>
    exact ⟨.and, [Operator.not.asWord, ⟨.ident, .text "a"⟩, Operator.lt.asWord,
      ⟨.ident, .text "b"⟩], _, rfl, ⟨.not, _, rfl, ⟨.lt, [_], _, rfl, rfl, rfl, rfl⟩, rfl⟩, rfl,
        rfl⟩
  case spelled =>
    exact .cons (spells_operator .not) (.cons (.name a) (.cons (spells_operator .lt)
      (.cons (.name b) (.cons (spells_operator .and) (.cons true_ .nil)))))

end Quill
