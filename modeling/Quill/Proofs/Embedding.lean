import Quill.Proofs.Following
import Quill.Proofs.WrittenProgram

/-!
# Statements in a function

A statement that is parsed by itself is parsed as the same statement between the braces of a
function, if it is not empty and no operand is missing in it (`parse_inFunction`).

The statement alone ends at the end of the input, and the one in the function at the line feed
before the brace (`Rule.Derives.carries`), or further on if it consumes the line feed. Where the
statement alone has terminators after it, they are skipped in the function too.
-/

namespace Quill

open TokenReader

/-! ## A statement between braces -/

section
variable {s s₁ s₂ s' : Tape} {a : Statement} {b brace : Token} {more : List Token}

/-- A statement that is not empty begins neither with a terminator nor at the end of a list. -/
theorem Rule.Derives.exists_first (h : Rule.statement.Derives s a s₁) (hne : ¬a.IsEmpty) :
    ∃ t, current? s = some t ∧ t.kind ∉ [Kind.op .lineEnd, .op .rbrace, .eof] := by
  cases h with
  | block ht hk | byName ht hk | byCondition ht hk | byReturn ht hk | byFunction ht hk =>
    exact ⟨_, ht, by rw [hk]; decide⟩
  | byValue ht hk =>
    have starts : ∀ k ∈ Kind.exprStart, k ∉ [Kind.op .lineEnd, .op .rbrace, .eof] := by decide
    exact ⟨_, ht, starts _ hk⟩
  | empty => exact absurd trivial hne

/-- A whole statement that is followed by the end of the input is the only one of a block. -/
theorem Rule.Derives.statements_of_whole (h : Rule.statement.Derives s a s₁)
    (hend : Rule.end_.Derives s₁ () s₂) (whole : (Node.statement a).Whole) (hne : ¬a.IsEmpty)
    (hb : b.kind = .op .lineEnd) (hbrace : brace.kind = .op .rbrace)
    (hs : Continued b (brace :: more) s.tokens s'.tokens) :
    Rule.statements.Derives s' [a] ⟨brace :: more⟩ := by
  obtain ⟨t, ht, hk⟩ := h.exists_first hne
  simp only [List.mem_cons, List.not_mem_nil, or_false, not_or] at hk
  have first := hs.current_of_ne ht hk.2.2
  obtain ⟨s₁', h', follows⟩ := h.carries hb hbrace rfl (fun _ => whole) hs nofun
  cases hend with
  | end_ hx hc =>
    obtain ⟨s₂', hx', ⟨before, -⟩ | ⟨-, rfl⟩⟩ := follows.terminators hb hbrace hx
    · exact absurd ⟨_, hc.current, Token.eq_of_hasKind hc.2.1 rfl⟩ before
    · exact .statements first (by simp [hk]) h' hx' (.noStatements rfl (.inl hbrace))

end

/-- A function without parameters has the statements that are derived between its braces. -/
theorem Rule.Derives.function_of_statements {f n o c lb rb : Token} {ts : List Token}
    {ss : List Statement} {s₁ s₂ s' : Tape} (hf : f.kind = .keyword .fn) (hn : n.kind = .ident)
    (ho : o.kind = .op .lparen) (hc : c.kind = .op .rparen) (hlb : lb.kind = .op .lbrace)
    (hne : ts ≠ []) (hx : Rule.terminators.Derives (Tape.mk ts) () s₁)
    (hss : Rule.statements.Derives s₁ ss s₂) (hrb : Consumes (.op .rbrace) s₂ rb s') :
    Rule.function.Derives (Tape.mk (f :: n :: o :: c :: lb :: ts))
      ⟨n, ⟨[], o.pos⟩, ⟨ss, lb.pos⟩, f.pos⟩ s' := by
  have params : Rule.params.Derives (Tape.mk (o :: c :: lb :: ts)) ⟨[], o.pos⟩ ⟨lb :: ts⟩ :=
    .params (Tape.consumes_of_kind (List.cons_ne_nil _ _) ho) (.noNames rfl hc)
      (Tape.consumes_of_kind (List.cons_ne_nil _ _) hc)
  exact .function (Tape.consumes_of_kind (List.cons_ne_nil _ _) hf)
    (Tape.consumes_of_kind (List.cons_ne_nil _ _) hn) params
    (.scope (Tape.consumes_of_kind hne hlb) hx hss hrb)

/-- The tokens of the head of a function without parameters. -/
def functionHead : List Token :=
  [⟨.keyword .fn, .text "fn", ⟨0, 1, 1⟩⟩, ⟨.ident, .text "f", ⟨3, 1, 4⟩⟩,
    ⟨.op .lparen, .text "(", ⟨4, 1, 5⟩⟩, ⟨.op .rparen, .text ")", ⟨5, 1, 6⟩⟩,
    ⟨.op .lbrace, .text "\x7b", ⟨7, 1, 8⟩⟩]

/-- The tokens that end it. -/
def functionFoot : List Token :=
  [⟨.op .rbrace, .text "\x7d", ⟨0, 1, 1⟩⟩, ⟨.eof, .text "EOF", ⟨1, 1, 2⟩⟩]

/-- A program with nothing but a function `f`, which has no parameters, and nothing but the
statement in it. -/
def Statement.inFunction (a : Statement) : Program :=
  ⟨[⟨⟨.ident, .text "f", ⟨3, 1, 4⟩⟩, ⟨[], 4⟩, ⟨[a], 7⟩, 0⟩], 0⟩

/-- What is parsed as a whole statement is parsed as a function with that statement if it stands on
lines of its own between the braces. -/
theorem parseTokens_inFunction {us : List Token} {l b e : Token} {a : Statement}
    (hi : Input (us ++ [e])) (h : parseTokens .statement (us ++ [e]) = .ok (.statement a))
    (whole : (Node.statement a).Whole) (hne : ¬a.IsEmpty) (hl : l.kind = .op .lineEnd)
    (hb : b.kind = .op .lineEnd) :
    Input (functionHead ++ l :: (us ++ b :: functionFoot)) ∧
      parseTokens .program (functionHead ++ l :: (us ++ b :: functionFoot)) =
        .ok (.program a.inFunction) := by
  have body : Input (us ++ b :: functionFoot) := hi.join hb (.token rfl (.ended rfl))
  have input : Input (functionHead ++ l :: (us ++ b :: functionFoot)) :=
    (Input.token (by rw [hl]; rfl) body).append (by decide)
  refine ⟨input, ?_⟩
  rw [parseTokens_eq_ok_iff hi.ended_tape] at h
  rw [parseTokens_eq_ok_iff input.ended_tape]
  obtain ⟨s, h⟩ := h
  cases h with
  | wholeStatement h hend =>
  have joined : Continued b functionFoot (us ++ [e]) (us ++ b :: functionFoot) := .of_input hi
  obtain ⟨t, ht, hk⟩ := h.exists_first hne
  simp only [List.mem_cons, List.not_mem_nil, or_false, not_or] at hk
  have first : current? (Tape.mk (us ++ b :: functionFoot)) = some t :=
    joined.current_of_ne (s := ⟨us ++ [e]⟩) ht hk.2.2
  have lines : Rule.terminators.Derives (Tape.mk (l :: (us ++ b :: functionFoot))) () _ :=
    .terminators hl (Tape.consumes_of_kind (by simp) hl) (.noTerminators first hk.1)
  have inner := h.statements_of_whole hend whole hne hb rfl joined
  have function : Rule.function.Derives
      (Tape.mk (functionHead ++ l :: (us ++ b :: functionFoot))) _ _ :=
    .function_of_statements rfl rfl rfl rfl rfl (List.cons_ne_nil _ _) lines inner
      (Tape.consumes_of_kind (List.cons_ne_nil _ _) rfl)
  have start : current? (Tape.mk (functionHead ++ l :: (us ++ b :: functionFoot))) =
      some ⟨.keyword .fn, .text "fn", ⟨0, 1, 1⟩⟩ := rfl
  exact ⟨_, .wholeProgram (.program (.noTerminators start nofun) start function
    (.noTerminators rfl nofun) (.noFunctions rfl rfl))⟩

/-! ## The radix -/

section
variable {keywords : KeywordTable} {r r' : Radix}

/-- Only a numeral depends on the radix. -/
theorem Scan.token_radix {previous : Option Kind} {start : Location} {cs : List Char} {t : Token}
    (h : (Scan.token keywords r previous start cs).outcome = .ok t) (hn : t.kind ≠ .number) :
    Scan.token keywords r' previous start cs = Scan.token keywords r previous start cs := by
  cases cs with
  | nil => rfl
  | cons c cs =>
    unfold Scan.token at h ⊢
    by_cases first : (c.isDigit || c = '.') = true
    · simp only [if_pos first, numeral, Radix.number] at h
      split at h
      · cases h
        exact absurd rfl hn
      · cases h
    · simp only [if_neg first]

/-- A token that is no number is read the same in every radix. -/
theorem Lexer.advance_radix {l l' : Lexer} {t : Token} (h : advance l = .ok t l')
    (hn : t.kind ≠ .number) :
    advance { l with radix := r' } = .ok t { l' with radix := r' } := by
  obtain ⟨scan, rfl⟩ := advance_eq_ok h
  have same : ({ l with radix := r' } : Lexer).nextScan = l.nextScan := Scan.token_radix scan hn
  unfold Lexer.advance
  simp only [same, scan]
  rfl

/-- A text without numerals has the same tokens in every radix. -/
theorem tokenize_radix {source : String} {ts : List Token}
    (h : tokenize keywords r source = .ok ts) (hn : ∀ t ∈ ts, t.kind ≠ .number) :
    tokenize keywords r' source = .ok ts := by
  rw [tokenize_eq, outcome_eq_ok_iff] at h
  obtain ⟨l', h⟩ := h
  rw [tokenize_eq]
  refine Lexer.tokensFrom_induction (motive := fun l ts => (∀ t ∈ ts, t.kind ≠ .number) →
    outcome ({ l with radix := r' } : Lexer).tokensFrom = .ok ts) ?_ ?_ h hn
  · intro l l' t ha ht hn
    exact Lexer.outcome_tokensFrom_of_eof (Lexer.advance_radix ha (hn t (by simp))) ht
  · intro l l₁ t ts ha ht ih hn
    obtain ⟨first, hn⟩ := List.forall_mem_cons.1 hn
    rw [Lexer.outcome_tokensFrom_of_ne_eof (Lexer.advance_radix ha first) ht, ih hn]
    rfl

end

/-! ## Texts -/

/-- The head of the function is five tokens in every radix, with the end of the input after them. -/
theorem tokenize_functionHead (r : Radix) : tokenize .standard r "fn f() \x7b" =
    .ok (functionHead ++ [⟨.eof, .text "EOF", ⟨8, 1, 9⟩⟩]) := by
  have tokens : tokenize .standard .decimal "fn f() \x7b" =
      .ok (functionHead ++ [⟨.eof, .text "EOF", ⟨8, 1, 9⟩⟩]) := by decide +kernel
  exact tokenize_radix tokens (by decide)

/-- The foot of the function is a brace and the end of the input in every radix. -/
theorem tokenize_functionFoot (r : Radix) : tokenize .standard r "\x7d" = .ok functionFoot := by
  have tokens : tokenize .standard .decimal "\x7d" = .ok functionFoot := by decide +kernel
  exact tokenize_radix tokens (by decide)

/-- A statement that is parsed by itself is parsed as the same on lines of its own between the
braces of a function, unless it is empty or an operand is missing in it. -/
theorem parse_inFunction {r : Radix} {source : String} {a : Statement}
    (h : parse .standard r .statement source = .ok (.statement a)) (hne : ¬a.IsEmpty)
    (whole : (Node.statement a).Whole) :
    ∃ p, parse .standard r .program ("fn f() \x7b\n" ++ source ++ "\n\x7d") = .ok (.program p) ∧
      p.same a.inFunction = true := by
  have noEnd := KeywordTable.noEnd_standard
  obtain ⟨ts, ht⟩ := exists_tokenize_of_parse h
  have input := input_of_tokenize ht
  obtain ⟨us, e, rfl⟩ := input.exists_append
  rw [parse_eq_parseTokens noEnd ht] at h
  have same {source : String} {ts : List Token} (h : tokenize .standard r source = .ok ts) :
      List.Forall₂ Token.Like ts ts := List.forall₂_same.2 (like_of_tokenize h)
  obtain ⟨vs, hv, first⟩ := exists_tokenize_join (b := .lineFeed .start) noEnd
    (tokenize_functionHead r) ht (same (tokenize_functionHead r)) (same ht) rfl
  have split : functionHead ++ Token.lineFeed .start :: (us ++ [e]) =
      functionHead ++ Token.lineFeed .start :: us ++ [e] := by simp
  rw [split] at first
  obtain ⟨ws, hw, all⟩ := exists_tokenize_join (b := .lineFeed .start) noEnd hv
    (tokenize_functionFoot r) first (same (tokenize_functionFoot r)) rfl
  have text : "fn f() \x7b\n" ++ source ++ "\n\x7d" =
      "fn f() \x7b" ++ "\n" ++ source ++ "\n" ++ "\x7d" := by
    rw [show "fn f() \x7b\n" = "fn f() \x7b" ++ "\n" from rfl,
      show "\n\x7d" = "\n" ++ "\x7d" from rfl, ← String.append_assoc]
  obtain ⟨ended, parsed⟩ := parseTokens_inFunction (l := .lineFeed .start) (b := .lineFeed .start)
    input h whole hne rfl rfl
  rw [List.append_assoc, List.cons_append] at all
  rw [text]
  exact exists_parse_of_like noEnd hw ended.ended_tape all parsed

/-- A return whose line is followed by another condition, and a name at the end of the input. -/
theorem parse_inFunction_elif : ∃ a,
    parse .standard .decimal .statement "if a return\nelif b c" = .ok (.statement a) ∧
      ¬a.IsEmpty ∧ (Node.statement a).Whole ∧
      ∃ p, parse .standard .decimal .program
        ("fn f() \x7b\n" ++ "if a return\nelif b c" ++ "\n\x7d") = .ok (.program p) ∧
          p.same a.inFunction = true := by
  have tokens : tokenize .standard .decimal "if a return\nelif b c" = .ok
      [⟨.keyword .if_, .text "if", ⟨0, 1, 1⟩⟩, ⟨.ident, .text "a", ⟨3, 1, 4⟩⟩,
        ⟨.keyword .return_, .text "return", ⟨5, 1, 6⟩⟩, ⟨.op .lineEnd, .text "\n", ⟨11, 1, 12⟩⟩,
        ⟨.keyword .elif, .text "elif", ⟨12, 2, 1⟩⟩, ⟨.ident, .text "b", ⟨17, 2, 6⟩⟩,
        ⟨.ident, .text "c", ⟨19, 2, 8⟩⟩, ⟨.eof, .text "EOF", ⟨20, 2, 9⟩⟩] := by decide +kernel
  have parsed : parse .standard .decimal .statement "if a return\nelif b c" =
      .ok (.statement (.branch ⟨⟨.leaf .symbol (.text "a") 3, .ret none 5, 0⟩,
        [⟨.leaf .symbol (.text "b") 17, .expr (.leaf .symbol (.text "c") 19) 19, 12⟩], none, 0⟩)) :=
    (parse_eq_parseTokens KeywordTable.noEnd_standard tokens).trans rfl
  have whole : (Node.statement (.branch ⟨⟨.leaf .symbol (.text "a") 3, .ret none 5, 0⟩,
      [⟨.leaf .symbol (.text "b") 17, .expr (.leaf .symbol (.text "c") 19) 19, 12⟩], none,
        0⟩)).Whole := by
    simp [Node.whole_iff, Node.children, Node.isMissing]
  exact ⟨_, parsed, id, whole, parse_inFunction parsed id whole⟩

end Quill
