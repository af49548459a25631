import Quill.Proofs.WrittenProgram

/-!
# Programs are read back

Every canonical program, written down, is parsed as itself (`parse_written_program`).

A statement is read up to its last token, whatever comes next that is no terminator; if it ends in a
branch that has no `else`, neither an `elif` nor an `else` may come next (`Statement.Stops`). In a
scope that is so because no statement begins like that, and in a branch because its clauses are
closed.
-/

namespace Quill

open TokenReader

/-! ## First tokens -/

/-- The kinds that a canonical statement begins with. -/
def Kind.statementStart : List Kind :=
  operandStart ++ [op .lbrace, op .lineEnd, keyword .return_, keyword .if_, keyword .fn]

/-- A statement begins with a token that can begin one. -/
theorem Statement.Canonical.first_mem {a : Statement} (h : a.Canonical) :
    a.first ∈ Kind.statementStart := by
  cases a with
  | expr e pos => exact List.mem_append_left _ (Expr.Arithmetic.first_mem h)
  | assign t e pos =>
    rw [Statement.first, h.1.1]
    decide
  | scope => exact (by decide : Kind.op .lbrace ∈ Kind.statementStart)
  | ret => exact (by decide : Kind.keyword .return_ ∈ Kind.statementStart)
  | branch => exact (by decide : Kind.keyword .if_ ∈ Kind.statementStart)
  | function => exact (by decide : Kind.keyword .fn ∈ Kind.statementStart)
  | empty => exact (by decide : Kind.op .lineEnd ∈ Kind.statementStart)

/-- A statement that is not empty does not begin with a terminator. -/
theorem Statement.Canonical.first_ne_lineEnd {a : Statement} (h : a.Canonical)
    (hn : ¬a.IsEmpty) : a.first ≠ .op .lineEnd := by
  cases a with
  | expr e pos => exact Expr.Arithmetic.first_ne h (by decide)
  | assign t e pos =>
    rw [Statement.first, h.1.1]
    decide
  | scope | ret | branch | function => simp [first]
  | empty => exact absurd trivial hn

/-- What can stand after a condition begins with no parenthesis and no sign. -/
theorem Statement.FollowsCondition.first_not_mem {a : Statement} (h : a.Canonical)
    (hf : a.FollowsCondition) : a.first ∉ [Kind.op .lparen, .op .pos, .op .neg] := by
  cases a with
  | expr e pos => exact hf
  | assign t e pos =>
    rw [Statement.first, h.1.1]
    decide
  | scope | ret | branch | function | empty => simp [Statement.first]

/-- Nothing that can stand after a condition goes on with it. -/
theorem Statement.FollowsCondition.first_not_mem_goesOn {a : Statement} (h : a.Canonical)
    (hf : a.FollowsCondition) : a.first ∉ Tier.disjunction.goesOn := by
  have goesOn : ∀ k ∈ Kind.statementStart, k ∉ [Kind.op .lparen, .op .pos, .op .neg] →
      k ∉ Tier.disjunction.goesOn := by decide
  exact goesOn _ h.first_mem (first_not_mem h hf)

/-- What is written of a statement begins with a token of its first kind. -/
theorem Statement.Written.exists_first {a : Statement} {ts : List Token} (hc : a.Canonical)
    (h : a.Written (ts.map Token.word)) : ∃ t ts', ts = t :: ts' ∧ t.kind = a.first := by
  cases a with
  | scope b =>
    obtain ⟨ss, pos⟩ := b
    obtain ⟨inner, -, heq⟩ := h
    obtain ⟨t, ti, t', rfl, ht, -⟩ := exists_tokens_between heq
    exact ⟨t, _, rfl, ht⟩
  | expr e pos =>
    obtain ⟨value, he, heq⟩ := h
    obtain ⟨te, l, tr, rfl, -, rfl, -⟩ := exists_tokens_append_cons heq
    obtain ⟨t, te, rfl, ht⟩ := he.exists_first (Expr.Arithmetic.first_ne hc (by decide))
    exact ⟨t, _, rfl, ht⟩
  | assign t e pos =>
    obtain ⟨value, -, heq⟩ := h
    obtain ⟨t', ts', rfl, ht, -⟩ := exists_tokens_cons heq
    exact ⟨t', _, rfl, ht⟩
  | ret value pos =>
    cases value with
    | none =>
      obtain ⟨t, ts', rfl, ht, -⟩ := exists_tokens_cons h
      exact ⟨t, _, rfl, ht⟩
    | some e =>
      obtain ⟨value, -, heq⟩ := h
      obtain ⟨t, ts', rfl, ht, -⟩ := exists_tokens_cons heq
      exact ⟨t, _, rfl, ht⟩
  | branch b =>
    obtain ⟨c, cs, s, pos⟩ := b
    obtain ⟨first, others, otherwise, -, -, -, heq⟩ := h
    obtain ⟨t, ts', rfl, ht, -⟩ := exists_tokens_cons heq
    exact ⟨t, _, rfl, ht⟩
  | function f pos =>
    obtain ⟨name, params, body, q⟩ := f
    obtain ⟨block, -, heq⟩ := h
    obtain ⟨t, ts', rfl, ht, -⟩ := exists_tokens_cons heq
    exact ⟨t, _, rfl, ht⟩
  | empty pos =>
    obtain ⟨t, ts', rfl, ht, -⟩ := exists_tokens_cons h
    exact ⟨t, _, rfl, ht⟩

/-! ## Statements with a semicolon -/

/-- A terminator with a token after it ends a statement. -/
theorem Tape.terminates {l u : Token} {us : List Token} (hl : l.kind = .op .lineEnd) :
    Terminates (Tape.mk (l :: u :: us)) ⟨u :: us⟩ :=
  ⟨l, rfl, .inl ⟨hl, Tape.consumes_of_kind (by simp) hl⟩⟩

section
variable {e : Expr} {ts : List Token} {l : Token}

/-- An expression goes on to the semicolon. -/
theorem Expr.Arithmetic.reads_line (he : e.Arithmetic .sum) (hw : e.Written (ts.map Token.word))
    (hl : l.kind = .op .lineEnd) :
    ∃ e', e'.same e = true ∧ ∀ us,
      Rule.expr.Derives (Tape.mk (ts ++ l :: us)) e' ⟨l :: us⟩ := by
  obtain ⟨e', same, reads⟩ := he.reads hw
  refine ⟨e', same, fun us => reads.expr ?_⟩
  rw [hl]
  decide

/-- What comes after the first token of an expression is no sign of an assignment. -/
theorem Expr.Arithmetic.foresees_ne_assign {t : Token} {us : List Token} (he : e.Arithmetic .sum)
    (hw : e.Written ((t :: ts).map Token.word)) (hl : l.kind = .op .lineEnd) :
    ∃ v, Foresees (Tape.mk (t :: ts ++ l :: us)) v ∧ v.kind ≠ .op .assign := by
  cases ts with
  | nil =>
    refine ⟨l, Tape.foresees, ?_⟩
    rw [hl]
    decide
  | cons v vs =>
    have hm : v.word.kind ∈ Kind.arithmetic := he.kind_mem hw _ (by simp)
    refine ⟨v, Tape.foresees, ?_⟩
    intro hv
    rw [show v.word.kind = .op .assign from hv] at hm
    exact absurd hm (by decide)

/-- An expression with a semicolon is read as a statement. -/
theorem reads_expr {pos : Int} (he : e.Arithmetic .sum)
    (hw : (Statement.expr e pos).Written (ts.map Token.word)) :
    ∃ a', a'.same (.expr e pos) = true ∧ ∀ u us,
      Rule.statement.Derives (Tape.mk (ts ++ u :: us)) a' ⟨u :: us⟩ := by
  obtain ⟨value, hv, heq⟩ := hw
  obtain ⟨te, l, tr, rfl, hl, rfl, hn⟩ := exists_tokens_append_cons heq
  obtain rfl := List.map_eq_nil_iff.1 hn
  obtain ⟨e', same, reads⟩ := he.reads_line hv hl
  obtain ⟨t, te, rfl, ht⟩ := hv.exists_first (he.first_ne (by decide))
  refine ⟨.expr e' t.pos, by rwa [Statement.same], ?_⟩
  intro u us
  rw [List.append_assoc]
  have value : Rule.expr.Derives (Tape.mk (t :: te ++ l :: u :: us)) e' ⟨l :: u :: us⟩ :=
    reads (u :: us)
  by_cases hi : t.kind = .ident
  · obtain ⟨v, hf, hv⟩ := he.foresees_ne_assign hv hl
    exact .byName rfl hi (.expr rfl hf hv value (Tape.terminates hl))
  · have start : t.kind ∈ Kind.exprStart := by
      rw [ht]
      exact he.first_mem_exprStart
    exact .byValue rfl start hi value (Tape.terminates hl)

/-- An assignment is read back. -/
theorem reads_assign {n : Token} {pos : Int} (hn : n.IsName) (he : e.Arithmetic .sum)
    (hw : (Statement.assign n e pos).Written (ts.map Token.word)) :
    ∃ a', a'.same (.assign n e pos) = true ∧ ∀ u us,
      Rule.statement.Derives (Tape.mk (ts ++ u :: us)) a' ⟨u :: us⟩ := by
  obtain ⟨value, hv, heq⟩ := hw
  obtain ⟨n', ts', rfl, hn', heq⟩ := List.map_eq_cons_iff.1 heq
  obtain ⟨t, ts', rfl, ht, -, heq⟩ := exists_tokens_cons heq
  obtain ⟨te, l, tr, rfl, hl, rfl, hnil⟩ := exists_tokens_append_cons heq
  obtain rfl := List.map_eq_nil_iff.1 hnil
  obtain ⟨e', same, reads⟩ := he.reads_line hv hl
  have hk : n'.kind = .ident := (congrArg Word.kind hn').trans hn.1
  refine ⟨.assign n' e' n'.pos,
    by simp [Statement.same, same, Token.same_of_isName hn hn'], ?_⟩
  intro u us
  have tokens : n' :: t :: (te ++ [l]) ++ u :: us = n' :: t :: (te ++ l :: u :: us) := by simp
  rw [tokens]
  exact .byName rfl hk (.assign Tape.foresees ht
    (Tape.consumes_of_kind (by simp) hk)
    (Tape.consumes_of_kind (by simp) ht) (reads _) (Tape.terminates hl))

/-- A return is read back. -/
theorem reads_ret {value : Option Expr} {pos : Int} (hc : (Statement.ret value pos).Canonical)
    (hw : (Statement.ret value pos).Written (ts.map Token.word)) :
    ∃ a', a'.same (.ret value pos) = true ∧ ∀ u us,
      Rule.statement.Derives (Tape.mk (ts ++ u :: us)) a' ⟨u :: us⟩ := by
  cases value with
  | none =>
    obtain ⟨t, ts', rfl, ht, -, heq⟩ := exists_tokens_cons hw
    obtain ⟨l, ts', rfl, hl, -, hnil⟩ := exists_tokens_cons heq
    obtain rfl := List.map_eq_nil_iff.1 hnil
    refine ⟨.ret none t.pos, by simp [Statement.same, sameValue], ?_⟩
    intro u us
    exact .byReturn rfl ht (.retNone (Tape.consumes_of_kind (by simp) ht) rfl
      (.inl hl) (Tape.terminates hl))
  | some e =>
    obtain ⟨value, hv, heq⟩ := hw
    obtain ⟨t, ts', rfl, ht, -, heq⟩ := exists_tokens_cons heq
    obtain ⟨te, l, tr, rfl, hl, rfl, hnil⟩ := exists_tokens_append_cons heq
    obtain rfl := List.map_eq_nil_iff.1 hnil
    have he : e.Arithmetic .sum := hc
    obtain ⟨e', same, reads⟩ := he.reads_line hv hl
    obtain ⟨v, te, rfl, hfirst⟩ := hv.exists_first (he.first_ne (by decide))
    refine ⟨.ret (some e') t.pos, by simp [Statement.same, sameValue, same], ?_⟩
    intro u us
    have tokens : t :: (v :: te ++ [l]) ++ u :: us = t :: (v :: te ++ l :: u :: us) := by simp
    rw [tokens]
    refine .byReturn rfl ht (.ret (Tape.consumes_of_kind (by simp) ht) rfl ?_
      (reads _) (Tape.terminates hl))
    rw [hfirst]
    rintro (h | h | h) <;> exact he.first_ne (by decide) h

end

/-! ## Statements that hold others -/

/-- Whether the statement is read up to its last token if `u` comes next. -/
def Statement.Stops (a : Statement) (u : Token) : Prop :=
  u.kind ≠ .op .lineEnd ∧ (a.EndsOpen → u.kind ≠ .keyword .elif ∧ u.kind ≠ .keyword .else_)

/-- In a scope no further statement begins so that the one before would go on with it. -/
theorem exists_first_statements {ss : List Statement} {ts us : List Token} {u : Token}
    (hc : CanonicalStatements ss) (hw : WrittenStatements ss (ts.map Token.word))
    (hu : u.kind = .op .rbrace) :
    ∃ x xs, ts ++ u :: us = x :: xs ∧ ∀ a : Statement, a.Stops x := by
  cases ss with
  | nil =>
    obtain rfl := List.map_eq_nil_iff.1 hw
    refine ⟨u, us, rfl, ?_⟩
    intro a
    rw [Statement.Stops, hu]
    exact ⟨nofun, fun _ => ⟨nofun, nofun⟩⟩
  | cons s ss =>
    obtain ⟨first, rest, hs, -, heq⟩ := hw
    obtain ⟨ts, ts', rfl, rfl, -⟩ := List.map_eq_append_iff.1 heq
    obtain ⟨x, xs, rfl, hx⟩ := hs.exists_first hc.1
    have hm := hc.1.first_mem
    rw [← hx] at hm
    have elif : ∀ k ∈ Kind.statementStart, k ≠ .keyword .elif ∧ k ≠ .keyword .else_ := by decide
    refine ⟨x, _, rfl, fun a => ⟨?_, fun _ => elif _ hm⟩⟩
    rw [hx]
    exact hc.1.first_ne_lineEnd hc.2.1

/-- After a clause comes a further one, or what comes after all of them. -/
theorem exists_first_clauses {cs : List Clause} {ts : List Token}
    (hw : WrittenClauses cs (ts.map Token.word)) (u : Token) (us : List Token) :
    ∃ x xs, ts ++ u :: us = x :: xs ∧
      (cs = [] ∧ x = u ∨ cs ≠ [] ∧ x.kind = .keyword .elif) := by
  cases cs with
  | nil =>
    obtain rfl := List.map_eq_nil_iff.1 hw
    exact ⟨u, us, rfl, .inl ⟨rfl, rfl⟩⟩
  | cons c cs =>
    obtain ⟨first, rest, -, -, heq⟩ := hw
    obtain ⟨x, xs, rfl, hx, -⟩ := exists_tokens_cons heq
    exact ⟨x, _, rfl, .inr ⟨nofun, hx⟩⟩

/-- A clause of a closed list is read up to its last token. -/
theorem ClausesClosed.stops {c : Clause} {cs : List Clause} {s : Option Statement} {u x : Token}
    (h : ClausesClosed (c :: cs) s) (hx : cs = [] ∧ x = u ∨ cs ≠ [] ∧ x.kind = .keyword .elif)
    (hl : u.kind ≠ .op .lineEnd) (he : u.kind ≠ .keyword .elif)
    (hs : s = none → u.kind ≠ .keyword .else_) : c.body.Stops x := by
  rcases hx with ⟨-, rfl⟩ | ⟨hcs, hx⟩
  · refine ⟨hl, fun ho => ⟨he, hs ?_⟩⟩
    cases s with
    | none => rfl
    | some a => exact absurd ho (h.1 (.inr nofun))
  · refine ⟨?_, fun ho => absurd ho (h.1 (.inl hcs))⟩
    rw [hx]
    nofun

/-- Names that are written out begin with the first of them. -/
theorem exists_first_names {n : Token} {ns ts : List Token}
    (h : ts.map Token.word = nameWords (n :: ns)) : ∃ t ts', ts = t :: ts' ∧ t.word = n.word := by
  cases ns with
  | nil =>
    obtain ⟨t, ts', rfl, ht, -⟩ := List.map_eq_cons_iff.1 h
    exact ⟨t, ts', rfl, ht⟩
  | cons n' ns =>
    obtain ⟨t, ts', rfl, ht, -⟩ := List.map_eq_cons_iff.1 h
    exact ⟨t, ts', rfl, ht⟩

/-- Parameters are read back up to the closing parenthesis. -/
theorem reads_names {names : List Token} (hn : ∀ n ∈ names, n.IsName) {ts : List Token}
    (hw : ts.map Token.word = nameWords names) :
    ∃ names', sameTokens names' names = true ∧ ∀ u us, u.kind = .op .rparen →
      Rule.names.Derives (Tape.mk (ts ++ u :: us)) names' ⟨u :: us⟩ := by
  fun_induction nameWords names generalizing ts with
  | case1 =>
    obtain rfl := List.map_eq_nil_iff.1 hw
    exact ⟨[], by rw [sameTokens], fun u us hu => .noNames rfl hu⟩
  | case2 n =>
    obtain ⟨t, ts', rfl, ht, hnil⟩ := List.map_eq_cons_iff.1 hw
    obtain rfl := List.map_eq_nil_iff.1 hnil
    have hname : n.IsName := hn n (by simp)
    have hk : t.kind = .ident := (congrArg Word.kind ht).trans hname.1
    refine ⟨[t], by simp [sameTokens, Token.same_of_isName hname ht], ?_⟩
    intro u us hu
    refine .lastName rfl ?_ (Tape.consumes_of_kind (by simp) hk) rfl ?_
    · rw [hk]
      decide
    · rw [hu]
      decide
  | case3 n n' ns ih =>
    obtain ⟨t, ts', rfl, ht, heq⟩ := List.map_eq_cons_iff.1 hw
    obtain ⟨c, ts', rfl, hc, -, heq⟩ := exists_tokens_cons heq
    obtain ⟨names', same, reads⟩ := ih (fun n hm => hn n (List.mem_cons_of_mem _ hm)) heq
    have hname : n.IsName := hn n (by simp)
    have hk : t.kind = .ident := (congrArg Word.kind ht).trans hname.1
    refine ⟨t :: names', ?_, fun u us hu => ?_⟩
    · rw [sameTokens, same, Token.same_of_isName hname ht]
      rfl
    · refine .names rfl ?_ (Tape.consumes_of_kind (by simp) hk) hc
        (Tape.consumes_of_kind (by simp) hc) ?_ (reads u us hu)
      · rw [hk]
        decide
      · obtain ⟨v, vs, rfl, hv⟩ := exists_first_names heq
        have hname' : n'.IsName := hn n' (by simp)
        have hvk : v.kind = .ident := (congrArg Word.kind hv).trans hname'.1
        exact ⟨v, rfl, .inr (List.mem_singleton.2 hvk)⟩

/-- A parameter list is read back. -/
theorem reads_params {p : Params} (hn : ∀ n ∈ p.names, n.IsName) {ts : List Token}
    (hw : ts.map Token.word = p.words) :
    ∃ p', p'.same p = true ∧ ∀ u us,
      Rule.params.Derives (Tape.mk (ts ++ u :: us)) p' ⟨u :: us⟩ := by
  obtain ⟨t, ti, t', rfl, ht, ht', hi⟩ := exists_tokens_between hw
  obtain ⟨names', same, reads⟩ := reads_names hn hi
  refine ⟨⟨names', t.pos⟩, same, ?_⟩
  intro u us
  have tokens : t :: (ti ++ [t']) ++ u :: us = t :: (ti ++ t' :: u :: us) := by simp
  rw [tokens]
  exact .params (Tape.consumes_of_kind (by simp) ht) (reads t' _ ht')
    (Tape.consumes_of_kind (by simp) ht')

/-- A scope is written with a first token. -/
theorem Scope.Written.exists_cons {b : Scope} {ts : List Token}
    (h : b.Written (ts.map Token.word)) : ∃ t ts', ts = t :: ts' := by
  obtain ⟨ss, pos⟩ := b
  obtain ⟨inner, -, heq⟩ := h
  obtain ⟨t, ti, t', rfl, -⟩ := exists_tokens_between heq
  exact ⟨t, _, rfl⟩

mutual

/-- The tokens of a statement are read as the statement. -/
theorem Statement.Canonical.reads : ∀ {a : Statement} {ts : List Token}, a.Canonical →
    a.Written (ts.map Token.word) → ∃ a', a'.same a = true ∧ ∀ u us, a.Stops u →
      Rule.statement.Derives (Tape.mk (ts ++ u :: us)) a' ⟨u :: us⟩
  | .scope b, ts, hc, hw => by
    obtain ⟨t, ts', rfl, ht⟩ := Statement.Written.exists_first hc hw
    obtain ⟨b', same, reads⟩ := Scope.Canonical.reads hc hw
    exact ⟨.scope b', by rwa [Statement.same], fun u us _ => .block rfl ht (reads u us)⟩
  | .expr e pos, ts, hc, hw => by
    obtain ⟨a', same, reads⟩ := reads_expr hc hw
    exact ⟨a', same, fun u us _ => reads u us⟩
  | .assign n e pos, ts, hc, hw => by
    obtain ⟨a', same, reads⟩ := reads_assign hc.1 hc.2 hw
    exact ⟨a', same, fun u us _ => reads u us⟩
  | .ret value pos, ts, hc, hw => by
    obtain ⟨a', same, reads⟩ := reads_ret hc hw
    exact ⟨a', same, fun u us _ => reads u us⟩
  | .branch b, ts, hc, hw => by
    obtain ⟨t, ts', rfl, ht⟩ := Statement.Written.exists_first hc hw
    obtain ⟨b', same, reads⟩ := Branch.Canonical.reads hc hw
    exact ⟨.branch b', by rwa [Statement.same], fun u us hu =>
      .byCondition rfl ht (reads u us hu)⟩
  | .function f pos, ts, hc, hw => by
    obtain ⟨t, ts', rfl, ht⟩ := Statement.Written.exists_first hc hw
    obtain ⟨f', same, reads⟩ := Function.Canonical.reads hc hw
    exact ⟨.function f' t.pos, by rwa [Statement.same], fun u us _ =>
      .byFunction rfl ht (reads u us)⟩
  | .empty pos, ts, hc, hw => by
    obtain ⟨t, ts', rfl, ht, -, hnil⟩ := exists_tokens_cons hw
    obtain rfl := List.map_eq_nil_iff.1 hnil
    exact ⟨.empty t.pos, by rw [Statement.same], fun u us _ =>
      .empty ht (Tape.consumes_of_kind (by simp) ht)⟩

/-- The tokens of a scope are read as the scope. -/
theorem Scope.Canonical.reads : ∀ {b : Scope} {ts : List Token}, b.Canonical →
    b.Written (ts.map Token.word) → ∃ b', b'.same b = true ∧ ∀ u us,
      Rule.scope.Derives (Tape.mk (ts ++ u :: us)) b' ⟨u :: us⟩
  | ⟨ss, pos⟩, ts, hc, hw => by
    obtain ⟨inner, hi, heq⟩ := hw
    obtain ⟨t, ti, t', rfl, ht, ht', rfl⟩ := exists_tokens_between heq
    obtain ⟨ss', same, reads⟩ := reads_statements hc hi
    refine ⟨⟨ss', t.pos⟩, by rwa [Scope.same], ?_⟩
    intro u us
    have tokens : t :: (ti ++ [t']) ++ u :: us = t :: (ti ++ t' :: u :: us) := by simp
    rw [tokens]
    obtain ⟨x, xs, hx, stops⟩ := exists_first_statements hc hi ht'
    refine .scope (Tape.consumes_of_kind (by simp) ht) ?_ (reads t' _ ht')
      (Tape.consumes_of_kind (by simp) ht')
    rw [hx]
    exact .noTerminators rfl (stops (.empty 0)).1

/-- The tokens of statements are read as the statements, up to the closing brace. -/
theorem reads_statements : ∀ {ss : List Statement} {ts : List Token}, CanonicalStatements ss →
    WrittenStatements ss (ts.map Token.word) → ∃ ss', sameStatements ss' ss = true ∧ ∀ u us,
      u.kind = .op .rbrace → Rule.statements.Derives (Tape.mk (ts ++ u :: us)) ss' ⟨u :: us⟩
  | [], ts, hc, hw => by
    obtain rfl := List.map_eq_nil_iff.1 hw
    exact ⟨[], by rw [sameStatements], fun u us hu => .noStatements rfl (.inl hu)⟩
  | s :: ss, ts, hc, hw => by
    obtain ⟨first, rest, hs, hss, heq⟩ := hw
    obtain ⟨ts, ts', rfl, rfl, rfl⟩ := List.map_eq_append_iff.1 heq
    obtain ⟨s', same, reads⟩ := Statement.Canonical.reads hc.1 hs
    obtain ⟨ss', sames, readss⟩ := reads_statements hc.2.2 hss
    refine ⟨s' :: ss', by simp [sameStatements, same, sames], ?_⟩
    intro u us hu
    obtain ⟨t, ts, rfl, ht⟩ := hs.exists_first hc.1
    obtain ⟨x, xs, hx, stops⟩ := exists_first_statements hc.2.2 hss hu
    have rest := readss u us hu
    rw [List.append_assoc, hx]
    rw [hx] at rest
    refine .statements rfl ?_ (reads x xs (stops s)) (.noTerminators rfl (stops s).1) rest
    have ends : ∀ k ∈ Kind.statementStart, ¬(k = .op .rbrace ∨ k = .eof) := by decide
    rw [ht]
    exact ends _ hc.1.first_mem

/-- The tokens of a clause are read as the clause. -/
theorem Clause.Canonical.reads : ∀ {c : Clause} {ts : List Token} (keyword : Token), c.Canonical →
    c.Written (ts.map Token.word) → ∃ c', c'.same c = true ∧ ∀ u us, c.body.Stops u →
      (Rule.clause keyword).Derives (Tape.mk (ts ++ u :: us)) c' ⟨u :: us⟩
  | ⟨c, s, pos⟩, ts, keyword, hc, hw => by
    obtain ⟨condition, body, hwc, hws, heq⟩ := hw
    obtain ⟨ts, ts', rfl, rfl, rfl⟩ := List.map_eq_append_iff.1 heq
    obtain ⟨c', same, reads⟩ := hc.1.reads hwc
    obtain ⟨s', sames, readss⟩ := Statement.Canonical.reads hc.2.1 hws
    refine ⟨⟨c', s', keyword.pos⟩, by simp [Clause.same, same, sames], ?_⟩
    intro u us hu
    obtain ⟨t, ts', rfl, ht⟩ := hws.exists_first hc.2.1
    rw [List.append_assoc]
    refine .clause (reads.disjunction ?_) (readss u us hu)
    rw [ht]
    exact hc.2.2.first_not_mem_goesOn hc.2.1

/-- The tokens of further clauses are read as the clauses. -/
theorem reads_clauses : ∀ {cs : List Clause} {s : Option Statement} {ts : List Token},
    CanonicalClauses cs → ClausesClosed cs s → WrittenClauses cs (ts.map Token.word) →
    ∃ cs', sameClauses cs' cs = true ∧ ∀ u us, u.kind ≠ .op .lineEnd → u.kind ≠ .keyword .elif →
      (s = none → u.kind ≠ .keyword .else_) →
        Rule.clauses.Derives (Tape.mk (ts ++ u :: us)) cs' ⟨u :: us⟩
  | [], s, ts, hc, hcl, hw => by
    obtain rfl := List.map_eq_nil_iff.1 hw
    exact ⟨[], by rw [sameClauses], fun u us _ he _ => .noClauses rfl he⟩
  | c :: cs, s, ts, hc, hcl, hw => by
    obtain ⟨first, rest, hwc, hwcs, heq⟩ := hw
    obtain ⟨t, ts', rfl, ht, -, heq⟩ := exists_tokens_cons heq
    obtain ⟨ts, ts', rfl, rfl, rfl⟩ := List.map_eq_append_iff.1 heq
    obtain ⟨c', same, reads⟩ := Clause.Canonical.reads t hc.1 hwc
    obtain ⟨cs', sames, readss⟩ := reads_clauses hc.2 hcl.2 hwcs
    refine ⟨c' :: cs', by simp [sameClauses, same, sames], ?_⟩
    intro u us hl he hs
    obtain ⟨x, xs, hx, hfirst⟩ := exists_first_clauses hwcs u us
    have stops := hcl.stops hfirst hl he hs
    have rest := readss u us hl he hs
    have tokens : t :: (ts ++ ts') ++ u :: us = t :: (ts ++ (ts' ++ u :: us)) := by simp
    rw [tokens, hx]
    rw [hx] at rest
    exact .clauses ht (Tape.consumes_of_kind (by simp) ht) (reads x xs stops)
      (.noTerminators rfl stops.1) rest

/-- The tokens of a branch are read as the branch. -/
theorem Branch.Canonical.reads : ∀ {b : Branch} {ts : List Token}, b.Canonical →
    b.Written (ts.map Token.word) → ∃ b', b'.same b = true ∧ ∀ u us,
      (Statement.branch b).Stops u → Rule.branch.Derives (Tape.mk (ts ++ u :: us)) b' ⟨u :: us⟩
  | ⟨c, cs, none, pos⟩, ts, hc, hw => by
    obtain ⟨first, others, otherwise, hwc, hwcs, rfl, heq⟩ := hw
    obtain ⟨t, ts', rfl, ht, -, heq⟩ := exists_tokens_cons heq
    rw [List.append_nil] at heq
    obtain ⟨ts, ts', rfl, rfl, rfl⟩ := List.map_eq_append_iff.1 heq
    obtain ⟨c', same, reads⟩ := Clause.Canonical.reads t hc.1 hwc
    obtain ⟨cs', sames, readss⟩ := reads_clauses hc.2.1 hc.2.2.2.2 hwcs
    refine ⟨⟨c', cs', none, t.pos⟩, by simp [Branch.same, sameOtherwise, same, sames], ?_⟩
    intro u us hu
    obtain ⟨hl, ho⟩ := hu
    obtain ⟨helif, helse⟩ := ho trivial
    obtain ⟨x, xs, hx, hfirst⟩ := exists_first_clauses hwcs u us
    have stops := hc.2.2.2.stops hfirst hl helif fun _ => helse
    have rest := readss u us hl helif fun _ => helse
    have tokens : t :: (ts ++ ts') ++ u :: us = t :: (ts ++ (ts' ++ u :: us)) := by simp
    rw [tokens, hx]
    rw [hx] at rest
    exact .branch (Tape.consumes_of_kind (by simp) ht) (reads x xs stops)
      (.noTerminators rfl stops.1) rest rfl helse
  | ⟨c, cs, some s, pos⟩, ts, hc, hw => by
    obtain ⟨first, others, otherwise, hwc, hwcs, ⟨body, hws, rfl⟩, heq⟩ := hw
    obtain ⟨t, ts', rfl, ht, -, heq⟩ := exists_tokens_cons heq
    obtain ⟨ts, ts', rfl, rfl, hrest⟩ := List.map_eq_append_iff.1 heq
    obtain ⟨ts', v, tw, rfl, hv, rfl, rfl⟩ := exists_tokens_append_cons hrest
    obtain ⟨c', same, reads⟩ := Clause.Canonical.reads t hc.1 hwc
    obtain ⟨cs', sames, readss⟩ := reads_clauses hc.2.1 hc.2.2.2.2 hwcs
    obtain ⟨s', samew, readsw⟩ := Statement.Canonical.reads hc.2.2.1 hws
    refine ⟨⟨c', cs', some s', t.pos⟩, by simp [Branch.same, sameOtherwise, same, sames, samew], ?_⟩
    intro u us hu
    have hl : v.kind ≠ .op .lineEnd := by rw [hv]; nofun
    have helif : v.kind ≠ .keyword .elif := by rw [hv]; nofun
    obtain ⟨x, xs, hx, hfirst⟩ := exists_first_clauses hwcs v (tw ++ u :: us)
    have stops := hc.2.2.2.stops hfirst hl helif nofun
    have rest := readss v (tw ++ u :: us) hl helif nofun
    have tokens : t :: (ts ++ (ts' ++ v :: tw)) ++ u :: us =
        t :: (ts ++ (ts' ++ v :: (tw ++ u :: us))) := by simp
    rw [tokens, hx]
    rw [hx] at rest
    exact .branchElse (Tape.consumes_of_kind (by simp) ht) (reads x xs stops)
      (.noTerminators rfl stops.1) rest hv (Tape.consumes_of_kind (by simp) hv)
      (readsw u us hu)

/-- The tokens of a function are read as the function. -/
theorem Function.Canonical.reads : ∀ {f : Function} {ts : List Token}, f.Canonical →
    f.Written (ts.map Token.word) → ∃ f', f'.same f = true ∧ ∀ u us,
      Rule.function.Derives (Tape.mk (ts ++ u :: us)) f' ⟨u :: us⟩
  | ⟨name, params, body, pos⟩, ts, hc, hw => by
    obtain ⟨block, hb, heq⟩ := hw
    obtain ⟨t, ts', rfl, ht, -, heq⟩ := exists_tokens_cons heq
    obtain ⟨n, ts', rfl, hn, heq⟩ := List.map_eq_cons_iff.1 heq
    obtain ⟨tp, tb, rfl, hp, rfl⟩ := List.map_eq_append_iff.1 heq
    obtain ⟨p', same, reads⟩ := reads_params hc.2.1 hp
    obtain ⟨b', sameb, readsb⟩ := Scope.Canonical.reads hc.2.2 hb
    have hk : n.kind = .ident := (congrArg Word.kind hn).trans hc.1.1
    refine ⟨⟨n, p', b', t.pos⟩,
      by simp [Function.same, same, sameb, Token.same_of_isName hc.1 hn], ?_⟩
    intro u us
    obtain ⟨v, vs, rfl⟩ := hb.exists_cons
    have tokens : t :: n :: (tp ++ v :: vs) ++ u :: us =
        t :: n :: (tp ++ v :: (vs ++ u :: us)) := by simp
    rw [tokens]
    exact .function (Tape.consumes_of_kind (by simp) ht)
      (Tape.consumes_of_kind (by simp) hk) (reads v _) (readsb u us)

end

/-- A function is written with its keyword first. -/
theorem Function.Written.exists_first {f : Function} {ts : List Token}
    (h : f.Written (ts.map Token.word)) :
    ∃ t ts', ts = t :: ts' ∧ t.kind = .keyword .fn := by
  obtain ⟨name, params, body, pos⟩ := f
  obtain ⟨block, -, heq⟩ := h
  obtain ⟨t, ts', rfl, ht, -⟩ := exists_tokens_cons heq
  exact ⟨t, ts', rfl, ht⟩

/-- Functions, or the end of the input after none, do not begin with a terminator. -/
theorem exists_first_functions {fs : List Function} {ts : List Token}
    (hw : WrittenFunctions fs (ts.map Token.word)) {u : Token} (hu : u.kind = .eof) :
    ∃ x xs, ts ++ [u] = x :: xs ∧ x.kind ≠ .op .lineEnd := by
  cases fs with
  | nil =>
    obtain rfl := List.map_eq_nil_iff.1 hw
    exact ⟨u, [], rfl, by rw [hu]; nofun⟩
  | cons f fs =>
    obtain ⟨first, rest, hf, -, heq⟩ := hw
    obtain ⟨ts, ts', rfl, rfl, -⟩ := List.map_eq_append_iff.1 heq
    obtain ⟨x, xs, rfl, hx⟩ := hf.exists_first
    exact ⟨x, _, rfl, by rw [hx]; nofun⟩

/-- The tokens of functions are read as the functions, up to the end of the input. -/
theorem reads_functions {fs : List Function} (hc : ∀ f ∈ fs, f.Canonical) {ts : List Token}
    (hw : WrittenFunctions fs (ts.map Token.word)) :
    ∃ fs', sameFunctions fs' fs = true ∧ ∀ u, u.kind = .eof →
      Rule.functions.Derives (Tape.mk (ts ++ [u])) fs' ⟨[u]⟩ := by
  induction fs generalizing ts with
  | nil =>
    obtain rfl := List.map_eq_nil_iff.1 hw
    exact ⟨[], by rw [sameFunctions], fun u hu => .noFunctions rfl hu⟩
  | cons f fs ih =>
    obtain ⟨first, rest, hf, hfs, heq⟩ := hw
    obtain ⟨ts, ts', rfl, rfl, rfl⟩ := List.map_eq_append_iff.1 heq
    obtain ⟨f', same, reads⟩ := (hc f (by simp)).reads hf
    obtain ⟨fs', sames, readss⟩ := ih (fun f hm => hc f (List.mem_cons_of_mem _ hm)) hfs
    refine ⟨f' :: fs', by simp [sameFunctions, same, sames], ?_⟩
    intro u hu
    obtain ⟨t, ts, rfl, ht⟩ := hf.exists_first
    obtain ⟨x, xs, hx, hl⟩ := exists_first_functions hfs hu
    have rest := readss u hu
    rw [List.append_assoc, hx]
    rw [hx] at rest
    refine .functions rfl ?_ (reads x xs) (.noTerminators rfl hl) rest
    rw [ht]
    decide

/-- The tokens of a program are read as the program. -/
theorem Program.Canonical.reads {p : Program} (hc : p.Canonical) {ts : List Token}
    (hw : p.Written (ts.map Token.word)) :
    ∃ p', p'.same p = true ∧ ∀ u, u.kind = .eof →
      Rule.program.Derives (Tape.mk (ts ++ [u])) p' ⟨[u]⟩ := by
  obtain ⟨fs, pos⟩ := p
  obtain ⟨hne, hc⟩ := hc
  cases fs with
  | nil => exact absurd rfl hne
  | cons f fs =>
    obtain ⟨first, rest, hf, hfs, heq⟩ := hw
    obtain ⟨ts, ts', rfl, rfl, rfl⟩ := List.map_eq_append_iff.1 heq
    obtain ⟨f', same, reads⟩ := (hc f (by simp)).reads hf
    have others : ∀ f ∈ fs, f.Canonical := fun f hm => hc f (List.mem_cons_of_mem _ hm)
    obtain ⟨fs', sames, readss⟩ := reads_functions others hfs
    obtain ⟨t, ts, rfl, ht⟩ := hf.exists_first
    refine ⟨⟨f' :: fs', t.pos⟩, by simp [Program.same, sameFunctions, same, sames], ?_⟩
    intro u hu
    obtain ⟨x, xs, hx, hl⟩ := exists_first_functions hfs hu
    have rest := readss u hu
    rw [List.append_assoc, hx]
    rw [hx] at rest
    refine .program (.noTerminators rfl ?_) rfl (reads x xs) (.noTerminators rfl hl) rest
    rw [ht]
    decide

/-! ## Signs -/

/-- Whether the words fit where no operand has ended. -/
def FitAtStart (ws : List Word) : Prop := ∀ previous, ¬EndsOperand previous → Fit previous ws

/-- Whether the word is spelled like no sign. -/
def Word.Plain (w : Word) : Prop := w.kind ∉ [Operator.add, .sub, .pos, .neg].map Kind.op

instance (w : Word) : Decidable w.Plain := inferInstanceAs (Decidable (_ ∉ _))

/-- A plain word fits wherever it stands, if what comes after it fits it. -/
theorem fit_cons {previous : Option Kind} {w : Word} {ws : List Word} (hw : w.Plain)
    (h : Fit (some w.kind) ws) : Fit previous (w :: ws) := ⟨signFits_of_not_mem hw, h⟩

/-- A plain word that ends no operand can be first where what comes after it can. -/
theorem fitAtStart_cons {w : Word} {ws : List Word} (hw : w.Plain)
    (he : ¬EndsOperand (some w.kind)) (h : FitAtStart ws) : FitAtStart (w :: ws) :=
  fun _ _ => fit_cons hw (h _ he)

/-- After a reserved word no operand has ended. -/
theorem fitAtStart_keyword {k : Keyword} {ws : List Word} (h : FitAtStart ws) :
    FitAtStart (k.asWord :: ws) := by
  refine fitAtStart_cons ?_ ?_ h
  · cases k <;> decide
  · cases k <;> decide

/-- After a semicolon no operand has ended. -/
theorem fitAtStart_lineEnd {ws : List Word} (h : FitAtStart ws) :
    FitAtStart (Operator.lineEnd.asWord :: ws) := fitAtStart_cons (by decide) (by decide) h

/-- What begins like no sign fits after an operand as it does elsewhere. -/
theorem FitAtStart.afterOperand {w : Word} {ws : List Word} (h : FitAtStart (w :: ws))
    (hw : w.Plain) : FitAfterOperand (w :: ws) :=
  fun _ _ => fit_cons hw (h none (by decide)).2

/-- A name is a plain word. -/
theorem Token.IsName.plain {n : Token} (h : n.IsName) : n.word.Plain := by
  unfold Word.Plain
  rw [show n.word.kind = .ident from h.1]
  decide

/-- A name can stand before a binary sign. -/
theorem Token.IsName.beforeBinary {n : Token} (h : n.IsName) :
    n.word.kind ∈ Kind.beforeBinary := by
  rw [show n.word.kind = .ident from h.1]
  decide

/-- Names with commas between them fit wherever they stand. -/
theorem fit_nameWords {names : List Token} (hn : ∀ n ∈ names, n.IsName) {rest : List Word}
    (hr : ∀ previous, Fit previous rest) (previous : Option Kind) :
    Fit previous (nameWords names ++ rest) := by
  fun_induction nameWords names generalizing previous with
  | case1 => exact hr previous
  | case2 n => exact fit_cons (hn n (by simp)).plain (hr _)
  | case3 n n' ns ih =>
    exact fit_cons (hn n (by simp)).plain (fit_cons (by decide)
      (ih (fun n hm => hn n (List.mem_cons_of_mem _ hm)) _))

/-- An expression with a semicolon fits if what comes next does. -/
theorem Expr.Arithmetic.fit_line {e : Expr} {ws rest : List Word} (he : e.Arithmetic .sum)
    (hw : e.Written ws) (hr : FitAtStart rest) :
    FitAtStart (ws ++ Operator.lineEnd.asWord :: rest) :=
  fun _ hp => he.fit hw hp fun _ _ => fit_cons (by decide) (hr _ (by decide))

/-- What can stand after a condition begins like no sign. -/
theorem Statement.Written.exists_plain {a : Statement} {ws : List Word} (hc : a.Canonical)
    (hf : a.FollowsCondition) (hw : a.Written ws) : ∃ w ws', ws = w :: ws' ∧ w.Plain := by
  obtain ⟨ts, rfl⟩ : ∃ ts : List Token, ts.map Token.word = ws :=
    ⟨ws.map fun w => ⟨w.kind, w.value, .nowhere⟩, by simp [Function.comp_def, Token.word]⟩
  obtain ⟨t, ts', rfl, ht⟩ := hw.exists_first hc
  refine ⟨t.word, ts'.map Token.word, rfl, ?_⟩
  have signs : ∀ k ∈ Kind.statementStart, k ∉ [Kind.op .lparen, .op .pos, .op .neg] →
      k ∉ [Operator.add, .sub, .pos, .neg].map Kind.op := by decide
  unfold Word.Plain
  rw [show t.word.kind = a.first from ht]
  exact signs _ hc.first_mem (hf.first_not_mem hc)

/-- A scope is written with an opening brace first. -/
theorem Scope.Written.exists_lbrace {b : Scope} {ws : List Word} (h : b.Written ws) :
    ∃ inner, ws = Operator.lbrace.asWord :: inner := by
  obtain ⟨ss, pos⟩ := b
  obtain ⟨inner, -, rfl⟩ := h
  exact ⟨_, rfl⟩

mutual

/-- The words of a statement fit where no operand has ended, if those that come next do. -/
theorem Statement.Canonical.fit : ∀ {a : Statement} {ws rest : List Word}, a.Canonical →
    a.Written ws → FitAtStart rest → FitAtStart (ws ++ rest)
  | .scope b, ws, rest, hc, hw, hr => Scope.Canonical.fit hc hw hr
  | .expr e pos, ws, rest, hc, hw, hr => by
    obtain ⟨value, hv, rfl⟩ := hw
    rw [List.append_assoc]
    exact Expr.Arithmetic.fit_line hc hv hr
  | .assign n e pos, ws, rest, hc, hw, hr => by
    obtain ⟨value, hv, rfl⟩ := hw
    have line := Expr.Arithmetic.fit_line hc.2 hv hr
    have words : n.word :: Operator.assign.asWord :: (value ++ [Operator.lineEnd.asWord]) ++ rest =
        n.word :: Operator.assign.asWord :: (value ++ Operator.lineEnd.asWord :: rest) := by simp
    rw [words]
    have sign : FitAtStart
        (Operator.assign.asWord :: (value ++ Operator.lineEnd.asWord :: rest)) :=
      fitAtStart_cons (by decide) (by decide) line
    exact fun _ _ => fit_cons hc.1.plain (sign.afterOperand (by decide) _ hc.1.beforeBinary)
  | .ret none pos, ws, rest, hc, hw, hr => by
    obtain rfl : ws = [Keyword.return_.asWord, Operator.lineEnd.asWord] := hw
    exact fitAtStart_keyword (fitAtStart_lineEnd hr)
  | .ret (some e) pos, ws, rest, hc, hw, hr => by
    obtain ⟨value, hv, rfl⟩ := hw
    have he : e.Arithmetic .sum := hc
    rw [List.cons_append, List.append_assoc]
    exact fitAtStart_keyword (he.fit_line hv hr)
  | .branch b, ws, rest, hc, hw, hr => Branch.Canonical.fit hc hw hr
  | .function f pos, ws, rest, hc, hw, hr => Function.Canonical.fit hc hw hr
  | .empty pos, ws, rest, hc, hw, hr => by
    obtain rfl : ws = [Operator.lineEnd.asWord] := hw
    exact fitAtStart_lineEnd hr

/-- The signs in a scope that is written out fit their places. -/
theorem Scope.Canonical.fit : ∀ {b : Scope} {ws rest : List Word}, b.Canonical →
    b.Written ws → FitAtStart rest → FitAtStart (ws ++ rest)
  | ⟨ss, pos⟩, ws, rest, hc, hw, hr => by
    obtain ⟨inner, hi, rfl⟩ := hw
    have close : FitAtStart (Operator.rbrace.asWord :: rest) :=
      fitAtStart_cons (by decide) (by decide) hr
    rw [List.append_assoc]
    exact fitAtStart_cons (by decide) (by decide) (fit_statements hc hi close)

/-- The signs in statements that are written out fit their places. -/
theorem fit_statements : ∀ {ss : List Statement} {ws rest : List Word}, CanonicalStatements ss →
    WrittenStatements ss ws → FitAtStart rest → FitAtStart (ws ++ rest)
  | [], ws, rest, hc, hw, hr => by
    obtain rfl : ws = [] := hw
    exact hr
  | s :: ss, ws, rest, hc, hw, hr => by
    obtain ⟨first, more, hs, hss, rfl⟩ := hw
    rw [List.append_assoc]
    exact Statement.Canonical.fit hc.1 hs (fit_statements hc.2.2 hss hr)

/-- The signs in a clause that is written out fit their places. -/
theorem Clause.Canonical.fit : ∀ {c : Clause} {ws rest : List Word}, c.Canonical →
    c.Written ws → FitAtStart rest → FitAtStart (ws ++ rest)
  | ⟨c, s, pos⟩, ws, rest, hc, hw, hr => by
    obtain ⟨condition, body, hwc, hws, rfl⟩ := hw
    have start := Statement.Canonical.fit hc.2.1 hws hr
    obtain ⟨w, ws, rfl, plain⟩ := hws.exists_plain hc.2.1 hc.2.2
    intro previous hp
    rw [List.append_assoc]
    exact hc.1.fit hwc hp (start.afterOperand plain)

/-- The signs in further clauses that are written out fit their places. -/
theorem fit_clauses : ∀ {cs : List Clause} {ws rest : List Word}, CanonicalClauses cs →
    WrittenClauses cs ws → FitAtStart rest → FitAtStart (ws ++ rest)
  | [], ws, rest, hc, hw, hr => by
    obtain rfl : ws = [] := hw
    exact hr
  | c :: cs, ws, rest, hc, hw, hr => by
    obtain ⟨first, more, hwc, hwcs, rfl⟩ := hw
    rw [List.cons_append, List.append_assoc]
    exact fitAtStart_keyword (Clause.Canonical.fit hc.1 hwc (fit_clauses hc.2 hwcs hr))

/-- The signs in a branch that is written out fit their places. -/
theorem Branch.Canonical.fit : ∀ {b : Branch} {ws rest : List Word}, b.Canonical →
    b.Written ws → FitAtStart rest → FitAtStart (ws ++ rest)
  | ⟨c, cs, s, pos⟩, ws, rest, hc, hw, hr => by
    obtain ⟨first, others, otherwise, hwc, hwcs, hws, rfl⟩ := hw
    rw [List.cons_append, List.append_assoc, List.append_assoc]
    exact fitAtStart_keyword (Clause.Canonical.fit hc.1 hwc
      (fit_clauses hc.2.1 hwcs (fit_otherwise hc.2.2.1 hws hr)))

/-- The signs in a last branch that is written out fit their places. -/
theorem fit_otherwise : ∀ {s : Option Statement} {ws rest : List Word}, CanonicalOtherwise s →
    WrittenOtherwise s ws → FitAtStart rest → FitAtStart (ws ++ rest)
  | none, ws, rest, hc, hw, hr => by
    obtain rfl : ws = [] := hw
    exact hr
  | some s, ws, rest, hc, hw, hr => by
    obtain ⟨body, hws, rfl⟩ := hw
    exact fitAtStart_keyword (Statement.Canonical.fit hc hws hr)

/-- The signs in a function that is written out fit their places. -/
theorem Function.Canonical.fit : ∀ {f : Function} {ws rest : List Word}, f.Canonical →
    f.Written ws → FitAtStart rest → FitAtStart (ws ++ rest)
  | ⟨name, params, body, pos⟩, ws, rest, hc, hw, hr => by
    obtain ⟨block, hb, rfl⟩ := hw
    have start := Scope.Canonical.fit hc.2.2 hb hr
    obtain ⟨inner, rfl⟩ := hb.exists_lbrace
    have close : ∀ previous, Fit previous (Operator.rparen.asWord ::
        (Operator.lbrace.asWord :: inner ++ rest)) :=
      fun _ => fit_cons (by decide) (start.afterOperand (by decide) _ (by decide))
    have words : Keyword.fn.asWord :: name.word :: (params.words ++
        Operator.lbrace.asWord :: inner) ++ rest = Keyword.fn.asWord :: name.word ::
          Operator.lparen.asWord :: (nameWords params.names ++ Operator.rparen.asWord ::
            (Operator.lbrace.asWord :: inner ++ rest)) := by simp [Params.words]
    rw [words]
    refine fitAtStart_keyword fun _ _ => fit_cons hc.1.plain (fit_cons (by decide) ?_)
    exact fit_nameWords hc.2.1 close _

end

/-- The signs in functions that are written out fit their places. -/
theorem fit_functions {fs : List Function} (hc : ∀ f ∈ fs, f.Canonical) {ws : List Word}
    (hw : WrittenFunctions fs ws) : FitAtStart ws := by
  induction fs generalizing ws with
  | nil =>
    obtain rfl : ws = [] := hw
    exact fun _ _ => trivial
  | cons f fs ih =>
    obtain ⟨first, rest, hf, hfs, rfl⟩ := hw
    exact (hc f (by simp)).fit hf (ih (fun f hm => hc f (List.mem_cons_of_mem _ hm)) hfs)

/-! ## Reading a program back -/

/-- A program, written with blanks between its tokens, is parsed as a program that agrees with
it. -/
theorem parse_written_program {p : Program} (hc : p.Canonical) {words : List Word}
    (hw : p.Written words) {text : List Char} (ht : Layout text words) :
    ∃ p', parse .standard .decimal .program (String.ofList text) = .ok (.program p') ∧
      p'.same p = true := by
  have fit : Fit none words := fit_functions hc.2 hw none (by decide)
  have derives : ∀ (ts : List Token) (u : Token), ts.map Token.word = words → u.kind = .eof →
      ∃ node s, (∃ p', node = .program p' ∧ p'.same p = true) ∧
        (Rule.entry .program).Derives (Tape.mk (ts ++ [u])) node s := by
    rintro ts u rfl hu
    obtain ⟨p', same, reads⟩ := hc.reads hw
    exact ⟨.program p', _, ⟨p', rfl, same⟩, .wholeProgram (reads u hu)⟩
  obtain ⟨node, parsed, p', rfl, same⟩ := exists_parse_of_layout ht fit derives
  exact ⟨p', parsed, same⟩

/-- A function that returns what it is given unless that is false. -/
theorem parse_written_program_guard :
    ∃ p', parse .standard .decimal .program (String.ofList (spaced
        [['f', 'n'], ['f'], ['('], ['a'], [')'], ['{'], ['i', 'f'], ['!'], ['a'], [';'],
          ['e', 'l', 's', 'e'], ['r', 'e', 't', 'u', 'r', 'n'], ['a'], [';'], ['}']])) =
        .ok (.program p') ∧
      p'.same ⟨[⟨⟨.ident, .text "f", .nowhere⟩, ⟨[⟨.ident, .text "a", .nowhere⟩], 0⟩,
        ⟨[.branch ⟨⟨.unary ⟨.op .not, .text "!", .nowhere⟩ (.leaf .symbol (.text "a") 0) 0,
          .empty 0, 0⟩, [], some (.ret (some (.leaf .symbol (.text "a") 0)) 0), 0⟩], 0⟩, 0⟩], 0⟩ =
        true := by
  have f : IsName "f" := by decide
  have a : IsName "a" := by decide
  have symbol : (Expr.leaf .symbol (.text "a") 0).Arithmetic .sum :=
    .products (.powers (.signed (.operand (.leaf trivial))))
  refine @parse_written_program _ ?canonical [Keyword.fn.asWord, ⟨.ident, .text "f"⟩,
    Operator.lparen.asWord, ⟨.ident, .text "a"⟩, Operator.rparen.asWord, Operator.lbrace.asWord,
    Keyword.if_.asWord, Operator.not.asWord, ⟨.ident, .text "a"⟩, Operator.lineEnd.asWord,
    Keyword.else_.asWord, Keyword.return_.asWord, ⟨.ident, .text "a"⟩, Operator.lineEnd.asWord,
    Operator.rbrace.asWord] ?written _ (layout_spaced ?spelled)
  case canonical =>
    refine ⟨by simp, ?_⟩
    intro g hg
    cases List.mem_singleton.1 hg
    refine ⟨⟨rfl, "f", rfl⟩, ?_, ?_, id, trivial⟩
    · intro n hn
      cases List.mem_singleton.1 hn
      exact ⟨rfl, "a", rfl⟩
    · refine ⟨⟨?_, trivial, trivial⟩, trivial, symbol, fun _ => id, trivial⟩
      exact .conjunction (.negation (.not rfl (.positive (.comparand (.value symbol nofun nofun)))))
  case written =>
    have guarded : Clause.Written ⟨.unary ⟨.op .not, .text "!", .nowhere⟩
        (.leaf .symbol (.text "a") 0) 0, .empty 0, 0⟩
        [Operator.not.asWord, ⟨.ident, .text "a"⟩, Operator.lineEnd.asWord] :=
      ⟨[Operator.not.asWord, ⟨.ident, .text "a"⟩], _, ⟨.not, _, rfl, rfl, rfl⟩, rfl, rfl⟩
    have otherwise : WrittenOtherwise (some (.ret (some (.leaf .symbol (.text "a") 0)) 0))
        [Keyword.else_.asWord, Keyword.return_.asWord, ⟨.ident, .text "a"⟩,
          Operator.lineEnd.asWord] :=
      ⟨_, ⟨[⟨.ident, .text "a"⟩], rfl, rfl⟩, rfl⟩
    exact ⟨_, [], ⟨_, ⟨_, ⟨_, [], ⟨_, [], _, guarded, rfl, otherwise, rfl⟩, rfl, rfl⟩, rfl⟩, rfl⟩,
      rfl, rfl⟩
  case spelled =>
    exact .cons (.keyword .fn) (.cons (.name f) (.cons (spells_operator .lparen)
      (.cons (.name a) (.cons (spells_operator .rparen) (.cons (spells_operator .lbrace)
        (.cons (.keyword .if_) (.cons (spells_operator .not) (.cons (.name a)
          (.cons (spells_operator .lineEnd) (.cons (.keyword .else_) (.cons (.keyword .return_)
            (.cons (.name a) (.cons (spells_operator .lineEnd)
              (.cons (spells_operator .rbrace) .nil))))))))))))))

end Quill
