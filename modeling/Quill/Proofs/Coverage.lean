import Quill.Proofs.Yield

/-!
# No token is lost

A tree that a text is parsed as holds all that the text has to say (`kept_of_parse`): its yield is
what remains of the tokens of the text when terminators, power signs without an operand on their
left, commas before a closing parenthesis and the end of the input are left out. Moreover the
brackets of the text are balanced.

The proof is by induction on the derivation of the tree. The tree that the rule of a chain is given
was read before the rule begins, so the rule covers what it adds to the yield. In a power it is the
rule of the exponent that consumes the sign, though the tree holds it, so for an operand the sign
before it is set apart (`Rule.Covers`).
-/

namespace Quill

open TokenReader

/-! ## What a rule covers -/

/-- The pieces of the trees of a category. -/
def Category.yield : (c : Category) → c.Tree → List Piece
  | nothing, _ => []
  | tokens, names => yieldNames names
  | exprs, es => commas (yieldItems es)
  | statements, ss => yieldStatements ss
  | clauses, cs => yieldClauses cs
  | functions, fs => yieldFunctions fs
  | expr, e => e.yield
  | call, c => c.yield
  | args, a => a.yield
  | params, p => p.yield
  | scope, b => b.yield
  | clause, c => c.yield
  | branch, b => b.yield
  | statement, s => s.yield
  | function, f => f.yield
  | program, p => yieldFunctions p.functions
  | node, n => n.yield

/-- A power sign is skipped if one is next. -/
def SkipsPower (s s' : Tape) : Prop :=
  ∃ t, current? s = some t ∧
    (t.kind = .op .pow ∧ Consumes (.op .pow) s t s' ∨ t.kind ≠ .op .pow ∧ s' = s)

/-- The rule covers the yield of its tree, the rule of a chain what it adds to the yield of the tree
that it is given. -/
def Rule.Covers : {c : Category} → Rule c → Tape → c.Tree → Tape → Prop
  | _, exprTail l, s, e, s' | _, termTail l, s, e, s' | _, disjunctionTail l, s, e, s'
  | _, conjunctionTail l, s, e, s' | _, comparisonTail l, s, e, s' =>
    ∃ ys, e.yield = l.yield ++ ys ∧ Covered s ys s'
  | _, factor, s, e, s' => ∃ s₁, SkipsPower s s₁ ∧ Covered s₁ e.yield s'
  | c, _, s, a, s' => Covered s (c.yield a) s'

section
variable {s s₁ s' : Tape} {t : Token}

/-- The terminator of a statement covers no piece. -/
theorem Covered.terminates (h : Complete s.tokens) (ht : Terminates s s') : Covered s [] s' := by
  rcases ht with ⟨t, -, ⟨-, hc⟩ | ⟨-, rfl⟩⟩
  · exact .lineEnd h hc
  · exact .refl h

/-- A skipped power sign is left out. -/
theorem Covered.skipsPower (h : Complete s.tokens) (ht : SkipsPower s s') : Covered s [] s' := by
  rcases ht with ⟨t, -, ⟨-, hc⟩ | ⟨-, rfl⟩⟩
  · exact .power h hc
  · exact .refl h

/-- Nothing is read beyond the end of the input. -/
theorem Complete.consumes_eof (h : Complete s.tokens) (hc : Consumes .eof s t s') :
    s' = s ∧ s.tokens = [t] ∧ t.kind = .eof := by
  have hk : t.kind = .eof := h.kind_eq hc nofun
  have tokens := h.eq_singleton hc.current hk
  obtain ⟨-, -, u, advance⟩ := hc
  rcases Tape.advance_eq_ok advance with ⟨-, rfl⟩ | ⟨u, us, h₁, -⟩
  · exact ⟨rfl, tokens, hk⟩
  · rw [tokens] at h₁
    cases h₁

/-- A name that the tree holds. -/
theorem Covered.name (h : Complete s.tokens) (hc : Consumes .ident s t s') :
    Covered s [.token t] s' := by
  refine token h hc ?_
  rw [h.kind_eq hc nofun]
  decide

/-- An operand that begins with no power sign. -/
theorem Rule.Covers.operand {e : Expr} (hc : current? s = some t) (ht : t.kind ≠ .op .pow)
    (h : Covered s e.yield s') : factor.Covers s e s' :=
  ⟨s, ⟨t, hc, .inr ⟨ht, rfl⟩⟩, h⟩

/-- A chain goes on with an operator and an operand. -/
theorem Covered.chain {l r e : Expr} {s₂ : Tape} {pos : Int} {kind : Kind}
    {os : List Operator} (hos : ∀ o ∈ os, Kind.op o ∉ .eof :: Kind.brackets)
    (h : Complete s.tokens) (ht : t.kind ∈ os.map .op) (hc : Consumes kind s t s₁)
    (hr : Complete s₁.tokens → Covered s₁ r.yield s₂)
    (hl : Complete s₂.tokens →
      ∃ ys, e.yield = (Expr.binary t l r pos).yield ++ ys ∧ Covered s₂ ys s') :
    ∃ ys, e.yield = l.yield ++ ys ∧ Covered s ys s' := by
  obtain ⟨o, ho, hk⟩ := List.mem_map.1 ht
  have sign := token h hc (by rw [← hk]; exact hos o ho)
  have operand := hr sign.complete
  obtain ⟨ys, hy, rest⟩ := hl operand.complete
  refine ⟨_, ?_, sign.trans (operand.trans rest)⟩
  rw [hy, Expr.yield]
  simp

/-- The whole of a chain. -/
theorem Covered.chained {l e : Expr} (h : Covered s l.yield s₁)
    (hl : Complete s₁.tokens → ∃ ys, e.yield = l.yield ++ ys ∧ Covered s₁ ys s') :
    Covered s e.yield s' := by
  obtain ⟨ys, hy, rest⟩ := hl h.complete
  rw [hy]
  exact h.trans rest

end

/-- Where there are no arguments the closing parenthesis is next. -/
theorem current_of_noItems {s s' : Tape} {es : List Expr} (h : Rule.items.Derives s es s')
    (hn : yieldItems es = []) : ∃ u, current? s = some u ∧ u.kind = .op .rparen := by
  cases h with
  | noItems hu hk => exact ⟨_, hu, hk⟩
  | lastItem | items => cases hn

/-- Where there are no parameters the closing parenthesis is next. -/
theorem current_of_noNames {s s' : Tape} {ns : List Token} (h : Rule.names.Derives s ns s')
    (hn : ns = []) : ∃ u, current? s = some u ∧ u.kind = .op .rparen := by
  cases h with
  | noNames hu hk => exact ⟨_, hu, hk⟩
  | lastName | names => cases hn

/-- Every rule covers the tokens that it reads. -/
theorem Rule.Derives.covers {c : Category} {rule : Rule c} {s s' : Tape} {a : c.Tree}
    (h : rule.Derives s a s') (hs : Complete s.tokens) : rule.Covers s a s' := by
  induction h with
  | wholeProgram _ ih => exact ih hs
  | wholeExpression _ _ ihe ihx | wholeCondition _ _ ihe ihx | wholeStatement _ _ ihe ihx =>
    have tree := ihe hs
    exact Covered.before tree (ihx tree.complete)
  | noTerminators => exact .refl hs
  | terminators _ hc _ ih =>
    have line := Covered.lineEnd hs hc
    exact line.trans (ih line.complete)
  | end_ _ hc ih =>
    have lines := ih hs
    obtain ⟨rfl, -⟩ := lines.complete.consumes_eof hc
    exact lines
  | program _ _ _ _ _ ihx ihf ihx' ihfs =>
    have lines := ihx hs
    have first := ihf lines.complete
    have more := ihx' first.complete
    exact lines.trans (first.trans (more.trans (ihfs more.complete)))
  | noFunctions => exact .refl hs
  | functions _ _ _ _ _ ihf ihx ihfs =>
    have first := ihf hs
    have more := ihx first.complete
    exact first.trans (more.trans (ihfs more.complete))
  | function hk hn _ _ ihp ihb =>
    have keyword := Covered.keyword hs hk
    have name := Covered.name keyword.complete hn
    have params := ihp name.complete
    exact keyword.trans (name.trans (params.trans (ihb params.complete)))
  | params ho _ hc ih => exact .between (by decide) hs ho ih hc
  | noNames => exact .refl hs
  | lastName _ _ hn => exact .name hs hn
  | names _ _ hn _ hc _ hns ih =>
    refine Covered.list (.name hs hn) hc ih fun hnil => current_of_noNames hns ?_
    exact List.map_eq_nil_iff.1 hnil
  | scope ho _ _ hc ihx ih =>
    refine Covered.between (by decide) hs ho (fun complete => ?_) hc
    have lines := ihx complete
    exact lines.trans (ih lines.complete)
  | noStatements => exact .refl hs
  | statements _ _ _ _ _ iha ihx ihss =>
    have first := iha hs
    have more := ihx first.complete
    exact first.trans (more.trans (ihss more.complete))
  | block _ _ _ ih | byName _ _ _ ih | byCondition _ _ _ ih | byReturn _ _ _ ih
  | byFunction _ _ _ ih | byCall _ _ _ ih | positive _ _ _ ih | value _ _ _ _ _ ih => exact ih hs
  | byValue _ _ _ _ ht ih | expr _ _ _ _ ht ih =>
    have value := ih hs
    exact Covered.before value (.terminates value.complete ht)
  | empty _ hc => exact .lineEnd hs hc
  | assign _ _ hn hc _ ht ih =>
    have name := Covered.name hs hn
    have sign := Covered.op name.complete hc (by decide)
    have value := ih sign.complete
    have rest := Covered.before value (.terminates value.complete ht)
    exact name.trans (sign.trans rest)
  | retNone hk _ _ ht =>
    have keyword := Covered.keyword hs hk
    exact keyword.trans (.terminates keyword.complete ht)
  | ret hk _ _ _ ht ih =>
    have keyword := Covered.keyword hs hk
    have value := ih keyword.complete
    have rest := Covered.before value (.terminates value.complete ht)
    exact keyword.trans rest
  | branchElse hk _ _ _ _ he _ ihc ihx ihcs iha =>
    have keyword := Covered.keyword hs hk
    have first := ihc keyword.complete
    have more := ihx first.complete
    have others := ihcs more.complete
    have otherwise := Covered.keyword others.complete he
    have last := iha otherwise.complete
    exact keyword.trans (first.trans (more.trans (others.trans (otherwise.trans last))))
  | branch hk _ _ _ _ _ ihc ihx ihcs =>
    have keyword := Covered.keyword hs hk
    have first := ihc keyword.complete
    have more := ihx first.complete
    have others := ihcs more.complete
    exact keyword.trans (first.trans (more.trans (others.trans (.refl others.complete))))
  | noClauses => exact .refl hs
  | clauses _ hk _ _ _ ihc ihx ihcs =>
    have keyword := Covered.keyword hs hk
    have first := ihc keyword.complete
    have more := ihx first.complete
    exact keyword.trans (first.trans (more.trans (ihcs more.complete)))
  | clause _ _ ihe iha =>
    have condition := ihe hs
    exact condition.trans (iha condition.complete)
  | sum _ _ ihl iht | product _ _ ihl iht | disjunction _ _ ihl iht | conjunction _ _ ihl iht
  | comparison _ _ ihl iht => exact Covered.chained (ihl hs) iht
  | sumEnd | productEnd | disjunctionEnd | conjunctionEnd | comparisonEnd =>
    exact ⟨[], (List.append_nil _).symm, .refl hs⟩
  | sumTail ht hc _ _ ihr iht | productTail ht hc _ _ ihr iht | disjunctionTail ht hc _ _ ihr iht
  | conjunctionTail ht hc _ _ ihr iht | comparisonTail ht hc _ _ ihr iht =>
    exact Covered.chain (by decide) hs ht hc ihr iht
  | base _ _ _ ih =>
    obtain ⟨s₁, skips, operand⟩ := ih hs
    exact (Covered.skipsPower hs skips).trans operand
  | power _ hc hk _ ihl ihr =>
    obtain ⟨s₁, skips, operand⟩ := ihl hs
    have left := (Covered.skipsPower hs skips).trans operand
    -- The rule of the exponent consumes the sign, which is kept here.
    rcases ihr left.complete with ⟨s₂, ⟨t, hc', ⟨-, sign⟩ | ⟨hne, -⟩⟩, right⟩
    · cases hc.symm.trans hc'
      have sign := Covered.token left.complete sign (by rw [hk]; decide)
      exact left.trans (sign.trans right)
    · cases hc.symm.trans hc'
      exact absurd hk hne
  | number hk hc | string hk hc | bool hk hc =>
    exact .operand hc.current (by rw [hk]; nofun) (.leaf hs hc hk (by decide))
  | truth hk hc => exact .leaf hs hc hk (by decide)
  | name hc hk _ ih => exact .operand hc (by rw [hk]; nofun) (ih hs)
  | group hk ho _ hc ih =>
    exact .operand ho.current (by rw [hk]; nofun) (.between (by decide) hs ho ih hc)
  | condition _ ho _ hc ih => exact .between (by decide) hs ho ih hc
  | exponent hk hc _ ih =>
    exact ⟨_, ⟨_, hc.current, .inl ⟨hk, hc⟩⟩, ih (Covered.power hs hc).complete⟩
  | sign hk hc _ ih =>
    have kinds : ∀ k, k = Kind.op .pos ∨ k = .op .neg →
        k ≠ .op .pow ∧ k ∉ .eof :: Kind.brackets := by
      rintro k (rfl | rfl) <;> decide
    have sign := Covered.token hs hc (kinds _ hk).2
    obtain ⟨s₂, skips, operand⟩ := ih sign.complete
    have skipped := Covered.skipsPower sign.complete skips
    exact .operand hc.current (kinds _ hk).1 (sign.trans (skipped.trans operand))
  | missing hc hk => exact .operand hc (by rw [hk]; nofun) (.refl hs)
  | symbol _ _ hc => exact .leaf hs hc (hs.kind_eq hc nofun) (by decide)
  | call hn _ _ ih =>
    have name := Covered.name hs hn
    exact name.trans (ih name.complete)
  | args ho _ hc ih => exact .between (by decide) hs ho ih hc
  | noItems => exact .refl hs
  | lastItem _ _ _ _ _ ih =>
    show Covered _ (commas [_]) _
    rw [commas_singleton]
    exact ih hs
  | items _ _ _ _ hc _ hes ihe ihes => exact Covered.list (ihe hs) hc ihes (current_of_noItems hes)
  | negation hk hc _ ih | opposite hk hc _ ih =>
    have sign := Covered.token hs hc (by rw [hk]; decide)
    exact sign.trans (ih sign.complete)

/-- After a rule that goes on to the end of the input only the end is left. -/
theorem Rule.Derives.exists_end {c : Category} {rule : Rule c} {s s' : Tape} {a : c.Tree}
    (h : rule.Derives s a s') (hs : Complete s.tokens) (hc : rule.closes = true) :
    ∃ t, s'.tokens = [t] ∧ t.kind = .eof := by
  induction h with
  | wholeProgram _ ih => exact ih hs rfl
  | wholeExpression h _ _ ih | wholeCondition h _ _ ih | wholeStatement h _ _ ih =>
    exact ih (Covered.complete (h.covers hs)) rfl
  | end_ hx he =>
    have lines : Covered _ [] _ := hx.covers hs
    obtain ⟨rfl, tokens, hk⟩ := lines.complete.consumes_eof he
    exact ⟨_, tokens, hk⟩
  | program hx _ hf hx' _ _ _ _ ih =>
    have lines : Covered _ [] _ := hx.covers hs
    have first : Covered _ _ _ := hf.covers lines.complete
    have more : Covered _ [] _ := hx'.covers first.complete
    exact ih more.complete rfl
  | noFunctions ht hk => exact ⟨_, hs.eq_singleton ht hk, hk⟩
  | functions _ _ hf hx _ _ _ ih =>
    have first : Covered _ _ _ := hf.covers hs
    have more : Covered _ [] _ := hx.covers first.complete
    exact ih more.complete rfl
  | _ => cases hc

/-! ## The tokens of a lexer -/

/-- A sign is spelled as the binary operator is. -/
theorem Operator.spelling_inContext (previous : Option Kind) (o : Operator) :
    (o.inContext previous).spelling = o.spelling := by
  unfold inContext
  split
  · rfl
  · cases o <;> rfl

/-- An operator that the context makes no terminator is none. -/
theorem Operator.inContext_ne_lineEnd {previous : Option Kind} {o : Operator}
    (h : o.inContext previous ≠ .lineEnd) : o ≠ .lineEnd := by
  rintro rfl
  apply h
  unfold inContext
  split <;> rfl

/-- The kinds whose tokens have any value. -/
def Kind.literals : List Kind := [number, string, bool, ident, eof]

/-- A literal, a name or the end of the input is proper, whatever its value is. -/
theorem Token.Proper.literal {t : Token} (kind : Kind) (hk : t.kind = kind)
    (h : kind ∈ Kind.literals) : t.Proper := by
  refine ⟨?_, ?_, ?_⟩
  · intro ha
    rw [← hk, ha] at h
    exact absurd h (by decide)
  · intro o ho
    rw [← hk, ho] at h
    simp [Kind.literals] at h
  · intro k hw
    rw [← hk, hw] at h
    simp [Kind.literals] at h

/-- The standard table knows the reserved words, each by its own kind. -/
theorem KeywordTable.exists_of_lookup_standard {word : String} {kind : Kind}
    (h : KeywordTable.standard.lookup word = some kind) : ∃ k : Keyword, k.word = word ∧
      kind = .keyword k := by
  obtain ⟨l₁, l₂, split, -⟩ := List.lookup_eq_some_iff.1 h
  have hm : (word, kind) ∈ KeywordTable.standard :=
    split ▸ List.mem_append_right _ List.mem_cons_self
  obtain ⟨k, -, heq⟩ := List.mem_map.1 hm
  obtain ⟨rfl, rfl⟩ := Prod.mk.inj heq
  exact ⟨k, rfl, rfl⟩

/-- A lexeme makes a token with the value that goes with its kind. -/
theorem Lexeme.proper {r : Radix} {previous : Option Kind} {after text : List Char} {t : Token}
    (h : Lexeme .standard r previous after t text) : t.Proper := by
  cases h with
  | number => exact .literal .number rfl (by decide)
  | truth => exact .literal .bool rfl (by decide)
  | name => exact .literal .ident rfl (by decide)
  | string => exact .literal .string rfl (by decide)
  | keyword _ _ hl =>
    obtain ⟨k, word, rfl⟩ := KeywordTable.exists_of_lookup_standard hl
    refine ⟨by simp, by simp, ?_⟩
    rintro k' ⟨⟩
    rw [← word]
    rfl
  | op mem =>
    have spelled : ∀ e ∈ Operator.lexemes, e.2 ≠ .lineEnd →
        String.ofList e.1 = e.2.spelling := by decide
    refine ⟨by simp, ?_, by simp⟩
    rintro o' ⟨⟩ hl
    have value := spelled _ mem (Operator.inContext_ne_lineEnd hl)
    rw [Token.word, Operator.asWord, Operator.spelling_inContext, value]

/-- All tokens that are read up to the end of the input are complete. -/
theorem Lexer.complete_of_tokensFrom {l l' : Lexer} {ts : List Token}
    (hk : l.keywords = .standard) (h : l.tokensFrom = .ok ts l') : Complete ts := by
  refine tokensFrom_induction (motive := fun l ts => l.keywords = .standard → Complete ts)
    (fun _ ht _ => .ended ht) ?_ h hk
  intro l l₁ t ts ha ht ih hk
  obtain ⟨_, _, _, -, -, -, rfl, ⟨-, end_⟩ | lexeme⟩ := exists_pieces_of_advance ha
  · exact absurd end_ ht
  · rw [hk] at lexeme
    exact .token lexeme.proper ht (ih hk)

/-- The tokens of a text are complete. -/
theorem complete_of_tokenize {r : Radix} {source : String} {ts : List Token}
    (h : tokenize .standard r source = .ok ts) : Complete ts := by
  rw [tokenize_eq, outcome_eq_ok_iff] at h
  obtain ⟨l, ht⟩ := h
  exact Lexer.complete_of_tokensFrom rfl ht

/-! ## The yield of a text -/

/-- The tokens of a text that is parsed are covered by the yield of its tree, up to the end of the
input. -/
theorem exists_covered_of_parse {r : Radix} {entry : Entry} {source : String} {node : Node}
    (h : parse .standard r entry source = .ok node) :
    ∃ ts s t, tokenize .standard r source = .ok ts ∧ Covered (Tape.mk ts) node.yield s ∧
      s.tokens = [t] ∧ t.kind = .eof := by
  obtain ⟨ts, tokens⟩ := exists_tokenize_of_parse h
  have hs : Complete (Tape.mk ts).tokens := complete_of_tokenize tokens
  rw [parse_eq_parseTokens KeywordTable.noEnd_standard tokens,
    parseTokens_eq_ok_iff (ended_of_tokenize KeywordTable.noEnd_standard tokens)] at h
  obtain ⟨s, derives⟩ := h
  obtain ⟨t, rest, ht⟩ := derives.exists_end hs rfl
  exact ⟨ts, s, t, tokens, derives.covers hs, rest, ht⟩

/-- Where only the end of the input is left, the pieces are what is kept. -/
theorem Covered.kept_of_end {s s' : Tape} {ys : List Piece} {t : Token} (h : Covered s ys s')
    (rest : s'.tokens = [t]) (ht : t.kind = .eof) : Kept s.tokens ys := by
  have nothing : Kept s'.tokens [] := by
    rw [rest]
    exact .ended ht
  have kept := h.kept nothing
  rwa [List.append_nil] at kept

end Quill
