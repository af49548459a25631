import Quill.Proofs.Coverage
import Quill.Proofs.Marks

/-!
# Where nodes begin

Every text that is parsed is read along the marks of its tree (`along_of_parse`), so every node
stands where its position tells: an expression at the first token of its yield, any other node at
the first token that its rule reads.

The proof is by induction on the derivation, as for the yield. A rule of a chain is given the tree
on its left, so it goes on from wherever that tree was read from; the list of arguments is given its
position, which is right if the token at hand has it (`Rule.Traces`).
-/

namespace Quill

open TokenReader

/-! ## Stretches of tokens -/

/-- The marks lead from one tape to the other, where the tokens are complete. -/
structure Traced (s : Tape) (ms : List Mark) (s' : Tape) : Prop where
  complete : Complete s'.tokens
  along : Along ms s.tokens s'.tokens

namespace Traced
variable {s s₁ s₂ s' : Tape} {ms ns : List Mark} {t : Token} {kind : Kind} {e l r : Expr}

/-- Without marks one stays at the tape. -/
theorem refl (h : Complete s.tokens) : Traced s [] s := ⟨h, rfl⟩

/-- One stretch after another. -/
theorem trans (h₁ : Traced s ms s₁) (h₂ : Traced s₁ ns s') : Traced s (ms ++ ns) s' :=
  ⟨h₂.complete, along_append.2 ⟨_, h₁.along, h₂.along⟩⟩

/-- A token that is a piece of the yield. -/
theorem keep {p : Piece} (h : Complete s.tokens) (hc : Consumes kind s t s')
    (ht : t.kind ≠ .eof) (hp : t.Proper → p.Is t) : Traced s [.piece p] s' := by
  obtain ⟨tokens, complete, proper⟩ := h.consumes hc ht
  exact ⟨complete, _, ⟨t, tokens, hp proper⟩, rfl⟩

/-- A token that the tree holds. -/
theorem token (h : Complete s.tokens) (hc : Consumes kind s t s') (ht : t.kind ≠ .eof) :
    Traced s [.piece (.token t)] s' :=
  keep h hc ht fun _ => rfl

/-- A name that the tree holds. -/
theorem name (h : Complete s.tokens) (hc : Consumes .ident s t s') :
    Traced s [.piece (.token t)] s' :=
  token h hc (by rw [h.kind_eq hc nofun]; nofun)

/-- A word that goes with a node. -/
theorem op {o : Operator} (h : Complete s.tokens) (hc : Consumes (.op o) s t s')
    (ho : o ≠ .lineEnd) : Traced s [.piece o.piece] s' := by
  have hk : t.kind = .op o := h.kind_eq hc nofun
  exact keep h hc (by rw [hk]; nofun) fun proper => proper.word_of_op hk ho

/-- A reserved word that goes with a node. -/
theorem keyword {k : Keyword} (h : Complete s.tokens) (hc : Consumes (.keyword k) s t s') :
    Traced s [.piece k.piece] s' := by
  have hk : t.kind = .keyword k := h.kind_eq hc nofun
  exact keep h hc (by rw [hk]; nofun) fun proper => proper.word_of_keyword hk

/-- A token that a leaf is made of. -/
theorem leaf (h : Complete s.tokens) (hc : Consumes kind s t s') (hk : t.kind = kind)
    (he : kind ≠ .eof) : Traced s [.piece (.word ⟨kind, t.value⟩)] s' :=
  keep h hc (by rwa [hk]) fun _ => by rw [Piece.Is, Token.word, hk]

/-- A node begins at the current token. -/
theorem start {kinds : List Kind} (hc : current? s = some t) (hk : t.kind ∈ kinds)
    (h : Traced s ms s') : Traced s (.start kinds t.pos :: ms) s' :=
  ⟨h.complete, _, ⟨rfl, t, hc, hk, rfl⟩, h.along⟩

/-- A node begins at a token that is consumed. -/
theorem begins (hs : Complete s.tokens) (hc : Consumes kind s t s₁) (hk : kind ≠ .anyOp)
    (h : Traced s ms s') : Traced s (.start [kind] t.pos :: ms) s' :=
  start hc.current (List.mem_singleton.2 (hs.kind_eq hc hk)) h

/-- Nothing has to be left out. -/
theorem skipsNone (h : Traced s ms s') : Traced s (.skips kind :: ms) s' :=
  ⟨h.complete, _, ⟨[], rfl, List.forall_mem_nil _⟩, h.along⟩

/-- One more token is left out. -/
theorem skipsOne (h : Complete s.tokens) (hc : Consumes kind s t s₁) (hk : t.kind = kind)
    (he : kind ≠ .eof) (hr : Complete s₁.tokens → Traced s₁ (.skips kind :: ms) s') :
    Traced s (.skips kind :: ms) s' := by
  obtain ⟨tokens, complete, -⟩ := h.consumes hc (by rwa [hk])
  obtain ⟨complete', mid, ⟨skipped, split, all⟩, rest⟩ := hr complete
  refine ⟨complete', mid, ⟨t :: skipped, ?_, List.forall_mem_cons.2 ⟨hk, all⟩⟩, rest⟩
  rw [tokens, split, List.cons_append]

/-- A terminator is left out if one is next. -/
theorem terminates (h : Complete s.tokens) (ht : Terminates s s') :
    Traced s [.skips (.op .lineEnd)] s' := by
  rcases ht with ⟨t, -, ⟨hk, hc⟩ | ⟨-, rfl⟩⟩
  · exact skipsOne h hc hk nofun fun complete => (refl complete).skipsNone
  · exact (refl h).skipsNone

/-- What stands between brackets. -/
theorem between {o o' : Operator} {t' : Token} (hb : (o, o') ∈ Operator.brackets)
    (h : Complete s.tokens) (ho : Consumes (.op o) s t s₁)
    (hi : Complete s₁.tokens → Traced s₁ ms s₂) (hc : Consumes (.op o') s₂ t' s') :
    Traced s (.piece o.piece :: ms ++ [.piece o'.piece]) s' := by
  have brackets : ∀ b ∈ Operator.brackets, b.1 ≠ .lineEnd ∧ b.2 ≠ .lineEnd := by decide
  obtain ⟨line, line'⟩ := brackets _ hb
  have first := op h ho line
  have inner := hi first.complete
  exact (first.trans inner).trans (op inner.complete hc line')

/-- An item of a list with a comma after it, and the items after that. -/
theorem list {xs : List (List Mark)} (hx : Traced s ms s₁) (hc : Consumes (.op .comma) s₁ t s₂)
    (hxs : Complete s₂.tokens → Traced s₂ (separated xs ++ [.skips (.op .comma)]) s') :
    Traced s (separated (ms :: xs) ++ [.skips (.op .comma)]) s' := by
  cases xs with
  | nil =>
    have hk : t.kind = .op .comma := hx.complete.kind_eq hc nofun
    rw [separated_singleton]
    exact hx.trans (skipsOne hx.complete hc hk nofun hxs)
  | cons y ys =>
    have comma := op hx.complete hc nofun
    rw [separated_cons_cons, List.append_assoc]
    exact hx.trans (comma.trans (hxs comma.complete))

/-- A clause begins at its keyword. -/
theorem clause {k : Keyword} {c : Clause} (h : Complete s.tokens)
    (hk : Consumes (.keyword k) s t s₁) (pos : c.pos = t.pos)
    (hc : Traced s₁ (c.condition.marks ++ c.body.marks) s') : Traced s (c.marks k) s' := by
  obtain ⟨condition, body, _⟩ := c
  obtain rfl : _ = t.pos := pos
  exact begins h hk nofun ((keyword h hk).trans hc)

/-! ### Expressions -/

/-- Where an operand begins no power sign is left out. -/
theorem operand (hc : current? s = some t) (hk : t.kind = kind) (hp : kind ≠ .op .pow)
    (h : Traced s ms s') : Traced s (.powers :: .start [kind] t.pos :: ms) s' := by
  have none : ∀ u ∈ s.tokens.head?, u.kind ≠ .op .pow := by
    intro u hu
    cases hc.symm.trans hu
    rwa [hk]
  have begins := start hc (List.mem_singleton.2 hk) h
  exact ⟨h.complete, _, ⟨[], rfl, List.forall_mem_nil _, none⟩, begins.along⟩

/-- A power sign is left out before an expression. -/
theorem skipsPower (h : Complete s.tokens) (hs : SkipsPower s s₁)
    (he : Complete s₁.tokens → Traced s₁ e.marks s') : Traced s e.marks s' := by
  rcases hs with ⟨t, -, ⟨hk, hc⟩ | ⟨-, rfl⟩⟩
  · obtain ⟨tokens, complete, -⟩ := h.consumes hc (by rw [hk]; nofun)
    obtain ⟨complete', along⟩ := he complete
    obtain ⟨ms, marks⟩ := e.exists_marks
    rw [marks] at along ⊢
    obtain ⟨mid, ⟨skipped, split, all, last⟩, rest⟩ := along
    refine ⟨complete', mid, ⟨t :: skipped, ?_, List.forall_mem_cons.2 ⟨hk, all⟩, last⟩, rest⟩
    rw [tokens, split, List.cons_append]
  · exact he h

/-- The tree of an operator begins where the tree on its left does. -/
theorem binary (hl : Traced s l.marks s₁) (ho : Traced s₁ [.piece (.token t)] s₂)
    (hr : Traced s₂ r.marks s') : Traced s (Expr.binary t l r l.pos).marks s' := by
  obtain ⟨ms, marks⟩ := l.exists_marks
  obtain ⟨complete, along⟩ := hl
  rw [marks] at along
  obtain ⟨_, ⟨skipped, split, all, last⟩, mid, ⟨rfl, begins⟩, rest⟩ := along
  -- The power signs that the left tree leaves out before it begins are left out before the whole.
  have left : Traced (Tape.mk mid) l.marks s₁ := by
    rw [marks]
    exact ⟨complete, mid, ⟨[], rfl, List.forall_mem_nil _, last⟩, mid, ⟨rfl, begins⟩, rest⟩
  have whole := left.trans (ho.trans hr)
  exact ⟨whole.complete, mid, ⟨skipped, split, all, last⟩, mid, ⟨rfl, begins⟩, whole.along⟩

/-- The first token of an expression is the one that it begins at, or a power sign that is left
out. -/
theorem first_mem (h : Traced s e.marks s') (hc : current? s = some t) :
    t.kind ∈ [.op .pow, e.first] := by
  obtain ⟨skipped, u, rest, split, all, hk, -⟩ := Expr.exists_first_of_along h.along
  obtain ⟨tokens⟩ := s
  subst split
  cases skipped with
  | nil =>
    cases hc
    exact List.mem_cons_of_mem _ (List.mem_singleton.2 hk)
  | cons v vs =>
    cases hc
    exact List.mem_cons.2 (.inl (all t List.mem_cons_self))

end Traced

/-! ## What the rules read -/

/-- The marks of the trees of a category. After a whole text, and where a rule makes no tree,
terminators are left out. -/
def Category.marks : (c : Category) → c.Tree → List Mark
  | nothing, _ => [.skips (.op .lineEnd)]
  | tokens, names => markNames names
  | exprs, es => separated (markItems es) ++ [.skips (.op .comma)]
  | statements, ss => markStatements ss
  | clauses, cs => markClauses cs
  | functions, fs => markFunctions fs
  | expr, e => e.marks
  | call, c => c.marks
  | args, a => a.marks
  | params, p => p.marks
  | scope, b => b.marks
  | clause, c => c.marks .if_
  | branch, b => b.marks
  | statement, s => s.marks
  | function, f => f.marks
  | program, p => p.marks
  | node, n => n.marks ++ [.skips (.op .lineEnd)]

/-- The rule reads along the marks of its tree. The rule of a chain goes on from wherever the tree
that it is given was read from, an operand can have a power sign before it, the keyword of a clause
was consumed before, and arguments begin at the position that the rule is given. -/
def Rule.Traces : {c : Category} → Rule c → Tape → c.Tree → Tape → Prop
  | _, exprTail l, s, e, s' | _, termTail l, s, e, s' | _, disjunctionTail l, s, e, s'
  | _, conjunctionTail l, s, e, s' | _, comparisonTail l, s, e, s' =>
    ∀ {s₀}, Traced s₀ l.marks s → Traced s₀ e.marks s'
  | _, factor, s, e, s' => ∃ s₁, SkipsPower s s₁ ∧ Traced s₁ e.marks s'
  | _, clause keyword, s, c, s' =>
    c.pos = keyword.pos ∧ Traced s (c.condition.marks ++ c.body.marks) s'
  | _, args pos, s, a, s' =>
    (∃ t, current? s = some t ∧ t.pos = pos) → Traced s a.marks s'
  | c, _, s, a, s' => Traced s (c.marks a) s'

/-- An operand that begins with no power sign. -/
theorem Rule.Traces.operand {s s' : Tape} {t : Token} {e : Expr} (hc : current? s = some t)
    (ht : t.kind ≠ .op .pow) (h : Traced s e.marks s') : factor.Traces s e s' :=
  ⟨s, ⟨t, hc, .inr ⟨ht, rfl⟩⟩, h⟩

/-- A function begins at its keyword. -/
theorem kind_of_function {s s' : Tape} {t : Token} {f : Function} (hs : Complete s.tokens)
    (h : Rule.function.Derives s f s') (hc : current? s = some t) : t.kind = .keyword .fn := by
  cases h with
  | function hk =>
    cases hc.symm.trans hk.current
    exact hs.kind_eq hk nofun

/-- Every rule reads along the marks of its tree. -/
theorem Rule.Derives.traces {c : Category} {rule : Rule c} {s s' : Tape} {a : c.Tree}
    (h : rule.Derives s a s') (hs : Complete s.tokens) : rule.Traces s a s' := by
  induction h with
  | wholeProgram _ ih =>
    have tree := ih hs
    exact Traced.trans tree (Traced.refl tree.complete).skipsNone
  | wholeExpression _ _ ihe ihx | wholeCondition _ _ ihe ihx | wholeStatement _ _ ihe ihx =>
    have tree := ihe hs
    exact Traced.trans tree (ihx tree.complete)
  | noTerminators => exact (Traced.refl hs).skipsNone
  | terminators hk hc _ ih => exact .skipsOne hs hc hk nofun ih
  | end_ _ hc ih =>
    have lines := ih hs
    obtain ⟨rfl, -⟩ := lines.complete.consumes_eof hc
    exact lines
  | program _ hc hf _ _ ihx ihf ihx' ihfs =>
    have lines := ihx hs
    have first := ihf lines.complete
    have more := ihx' first.complete
    have functions := first.trans (more.trans (ihfs more.complete))
    have keyword := List.mem_singleton.2 (kind_of_function lines.complete hf hc)
    exact lines.trans (functions.start hc keyword)
  | noFunctions | noStatements | noClauses => exact .refl hs
  | functions _ _ _ _ _ iha ihx ihas | statements _ _ _ _ _ iha ihx ihas =>
    have first := iha hs
    have more := ihx first.complete
    exact first.trans (more.trans (ihas more.complete))
  | function hk hn _ _ ihp ihb =>
    have keyword := Traced.keyword hs hk
    have name := Traced.name keyword.complete hn
    have params := ihp name.complete
    have all := keyword.trans (name.trans (params.trans (ihb params.complete)))
    exact all.begins hs hk nofun
  | params ho _ hc ih => exact (Traced.between (by decide) hs ho ih hc).begins hs ho nofun
  | noNames | noItems => exact (Traced.refl hs).skipsNone
  | lastName _ _ hn =>
    have name := Traced.name hs hn
    exact name.trans (Traced.refl name.complete).skipsNone
  | names _ _ hn _ hc _ _ ih => exact Traced.list (.name hs hn) hc ih
  | scope ho _ _ hc ihx ih =>
    refine (Traced.between (by decide) hs ho (fun complete => ?_) hc).begins hs ho nofun
    have lines := ihx complete
    exact lines.trans (ih lines.complete)
  | block _ _ _ ih | byName _ _ _ ih | byCondition _ _ _ ih | byReturn _ _ _ ih
  | positive _ _ _ ih | value _ _ _ _ _ ih => exact ih hs
  | byFunction hc hk _ ih => exact Traced.start hc (List.mem_singleton.2 hk) (ih hs)
  | byValue hc _ _ _ ht ih | expr hc _ _ _ ht ih =>
    have value := ih hs
    have all := Traced.trans value (.terminates value.complete ht)
    exact all.start hc (value.first_mem hc)
  | empty hk hc =>
    obtain ⟨tokens, complete, -⟩ := hs.consumes hc (by rw [hk]; nofun)
    exact Traced.begins hs hc nofun ⟨complete, _, ⟨_, tokens, hk⟩, rfl⟩
  | assign _ _ hn hc _ ht ih =>
    have name := Traced.name hs hn
    have sign := Traced.op name.complete hc nofun
    have value := ih sign.complete
    have all := name.trans (sign.trans (Traced.trans value (.terminates value.complete ht)))
    exact all.begins hs hn nofun
  | retNone hk _ _ ht =>
    have keyword := Traced.keyword hs hk
    exact (keyword.trans (.terminates keyword.complete ht)).begins hs hk nofun
  | ret hk _ _ _ ht ih =>
    have keyword := Traced.keyword hs hk
    have value := ih keyword.complete
    have all := keyword.trans (Traced.trans value (.terminates value.complete ht))
    exact all.begins hs hk nofun
  | branchElse hk _ _ _ _ he _ ihc ihx ihcs iha =>
    obtain ⟨pos, condition⟩ := ihc (Traced.keyword hs hk).complete
    have first := Traced.clause hs hk pos condition
    have more := ihx first.complete
    have others := ihcs more.complete
    have otherwise := Traced.keyword others.complete he
    have last := otherwise.trans (iha otherwise.complete)
    exact (first.trans (more.trans (others.trans last))).begins hs hk nofun
  | branch hk _ _ _ _ _ ihc ihx ihcs =>
    obtain ⟨pos, condition⟩ := ihc (Traced.keyword hs hk).complete
    have first := Traced.clause hs hk pos condition
    have more := ihx first.complete
    have others := ihcs more.complete
    have all := first.trans (more.trans (others.trans (.refl others.complete)))
    exact all.begins hs hk nofun
  | clauses _ hk _ _ _ ihc ihx ihcs =>
    obtain ⟨pos, condition⟩ := ihc (Traced.keyword hs hk).complete
    have first := Traced.clause hs hk pos condition
    have more := ihx first.complete
    exact first.trans (more.trans (ihcs more.complete))
  | clause _ _ ihe iha =>
    have condition := ihe hs
    exact ⟨rfl, condition.trans (iha condition.complete)⟩
  | sum _ _ ihl iht | product _ _ ihl iht | disjunction _ _ ihl iht | conjunction _ _ ihl iht
  | comparison _ _ ihl iht =>
    have left := ihl hs
    exact iht left.complete left
  | sumEnd | productEnd | disjunctionEnd | conjunctionEnd | comparisonEnd => exact id
  | sumTail ht hc _ _ ihr iht | productTail ht hc _ _ ihr iht | disjunctionTail ht hc _ _ ihr iht
  | conjunctionTail ht hc _ _ ihr iht | comparisonTail ht hc _ _ ihr iht =>
    intro s₀ left
    obtain ⟨o, -, hk⟩ := List.mem_map.1 ht
    have sign := Traced.token left.complete hc (by rw [← hk]; nofun)
    have right := ihr sign.complete
    exact iht right.complete (left.binary sign right)
  | base _ _ _ ih =>
    obtain ⟨s₁, skips, operand⟩ := ih hs
    exact Traced.skipsPower hs skips fun _ => operand
  | power _ hc hk _ ihl ihr =>
    obtain ⟨s₁, skips, operand⟩ := ihl hs
    have left := Traced.skipsPower hs skips fun _ => operand
    -- The rule of the exponent consumes the sign, which is kept here.
    rcases ihr left.complete with ⟨s₂, ⟨t, hc', ⟨-, sign⟩ | ⟨hne, -⟩⟩, right⟩
    · cases hc.symm.trans hc'
      exact left.binary (.token left.complete sign (by rw [hk]; nofun)) right
    · cases hc.symm.trans hc'
      exact absurd hk hne
  | number hk hc | string hk hc | bool hk hc =>
    have leaf := Traced.leaf hs hc hk nofun
    exact .operand hc.current (by rw [hk]; nofun) (.operand hc.current hk nofun leaf)
  | truth hk hc => exact Traced.operand hc.current hk nofun (.leaf hs hc hk nofun)
  | name hc hk _ ih => exact .operand hc (by rw [hk]; nofun) (ih hs)
  | group hk ho _ hc ih =>
    have inner := Traced.between (by decide) hs ho ih hc
    exact .operand ho.current (by rw [hk]; nofun) (.operand ho.current hk nofun inner)
  | condition hk ho _ hc ih =>
    exact Traced.operand ho.current hk nofun (.between (by decide) hs ho ih hc)
  | exponent hk hc _ ih =>
    obtain ⟨-, complete, -⟩ := hs.consumes hc (by rw [hk]; nofun)
    exact ⟨_, ⟨_, hc.current, .inl ⟨hk, hc⟩⟩, ih complete⟩
  | sign hk hc _ ih =>
    have kinds : ∀ k, k = Kind.op .pos ∨ k = .op .neg → k ≠ .op .pow ∧ k ≠ .eof := by
      rintro k (rfl | rfl) <;> decide
    have sign := Traced.token hs hc (kinds _ hk).2
    obtain ⟨s₂, skips, inner⟩ := ih sign.complete
    have all := sign.trans (Traced.skipsPower sign.complete skips fun _ => inner)
    exact .operand hc.current (kinds _ hk).1 (.operand hc.current rfl (kinds _ hk).1 all)
  | missing hc hk => exact .operand hc (by rw [hk]; nofun) (.operand hc hk nofun (.refl hs))
  | byCall _ _ h ih =>
    have call := ih hs
    cases h with
    | call hn =>
      have hk : _ = Kind.ident := hs.kind_eq hn nofun
      exact Traced.operand hn.current rfl (ne_of_eq_of_ne hk nofun) call
  | symbol _ _ hc =>
    have hk := hs.kind_eq hc nofun
    exact Traced.operand hc.current hk nofun (.leaf hs hc hk nofun)
  | call hn hc _ ih =>
    have name := Traced.name hs hn
    have all := name.trans (ih name.complete ⟨_, hc, rfl⟩)
    exact all.begins hs hn nofun
  | args ho _ hc ih =>
    rintro ⟨t, ht, rfl⟩
    cases ht.symm.trans ho.current
    exact (Traced.between (by decide) hs ho ih hc).begins hs ho nofun
  | lastItem _ _ _ _ _ ih =>
    have item := ih hs
    show Traced _ (separated [_] ++ [.skips (.op .comma)]) _
    rw [separated_singleton]
    exact item.trans (Traced.refl item.complete).skipsNone
  | items _ _ _ _ hc _ _ ihe ihes => exact Traced.list (ihe hs) hc ihes
  | negation hk hc _ ih | opposite hk hc _ ih =>
    have sign := Traced.token hs hc (by rw [hk]; nofun)
    have all := sign.trans (ih sign.complete)
    exact Traced.operand hc.current rfl (ne_of_eq_of_ne hk nofun) all

/-! ## Texts -/

/-- No whole text is a clause. -/
theorem Rule.Derives.ne_clause {entry : Entry} {s s' : Tape} {node : Node}
    (h : (Rule.entry entry).Derives s node s') (c : Clause) : node ≠ .clause c := by
  cases h <;> nofun

/-- A text that is parsed is read along the marks of its tree, up to the end of the input. Between
the marks that tell where nodes begin stand the pieces of the yield. So every node of the tree
begins where its position tells, at a token that its construct can begin with, and an expression at
the first token of its yield. -/
theorem along_of_parse {r : Radix} {entry : Entry} {source : String} {node : Node}
    (h : parse .standard r entry source = .ok node) :
    ∃ ts t, tokenize .standard r source = .ok ts ∧ t.kind = .eof ∧
      Along (node.marks ++ [.skips (.op .lineEnd)]) ts [t] ∧ pieces node.marks = node.yield ∧
      ∀ n : Node, n.Within node → ∃ u ∈ ts, n.BeginsAt u := by
  obtain ⟨ts, tokens⟩ := exists_tokenize_of_parse h
  have hs : Complete (Tape.mk ts).tokens := complete_of_tokenize tokens
  rw [parse_eq_parseTokens KeywordTable.noEnd_standard tokens,
    parseTokens_eq_ok_iff (ended_of_tokenize KeywordTable.noEnd_standard tokens)] at h
  obtain ⟨s, derives⟩ := h
  obtain ⟨t, rest, ht⟩ := derives.exists_end hs rfl
  have traced : Traced _ (node.marks ++ [.skips (.op .lineEnd)]) s := derives.traces hs
  obtain ⟨_, along, -⟩ := along_append.1 traced.along
  exact ⟨ts, t, tokens, ht, rest ▸ traced.along, Node.pieces_marks derives.ne_clause,
    fun _ hn => hn.exists_beginsAt along⟩

/-- The statement begins at the power sign that is left out, and its expression behind it. -/
theorem along_of_parse_power :
    let sign : Token := ⟨.op .neg, .text "-", ⟨2, 1, 3⟩⟩
    ∃ ts t, tokenize .standard .decimal "**-a" = .ok ts ∧ t.kind = .eof ∧
      Along [.start [.op .pow, .op .neg] 0, .powers, .start [.op .neg] 2, .piece (.token sign),
        .powers, .start [.ident] 3, .piece (.word ⟨.ident, .text "a"⟩), .skips (.op .lineEnd),
        .skips (.op .lineEnd)] ts [t] := by
  intro sign
  have parsed : parse .standard .decimal .statement "**-a" = .ok (.statement
      (.expr (.unary sign (.leaf .symbol (.text "a") 3) 2) 0)) := by rfl
  obtain ⟨ts, t, tokens, ended, along, -⟩ := along_of_parse parsed
  exact ⟨ts, t, tokens, ended, along⟩

end Quill
