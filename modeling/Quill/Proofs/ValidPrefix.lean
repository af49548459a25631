import Quill.Proofs.Completion

/-!
# Failing at the first token that does not fit

A parse that fails does so at a token which is the first one that cannot stand where it does
(`fails_at_first_misfit`): the tokens before it can be completed to an input that is parsed, and
with it no tokens that come after make a difference.

The one half is `Rule.related_of_left`: a run that ends at a token depends on nothing after it. The
other half is `Rule.completable`.
-/

namespace Quill

open TokenReader LawfulReader

/-- Tokens of kinds that a lexer makes, with the end of the input last and nowhere else. -/
inductive Input : List Token → Prop
  | ended {t : Token} : t.kind = .eof → Input [t]
  | token {t : Token} {ts : List Token} : t.kind.isLexical = true → Input ts → Input (t :: ts)

namespace Input
variable {t : Token} {us ts rest : List Token}

/-- An input ends with the end of the input. -/
theorem ended_tape (h : Input ts) : (Tape.mk ts).Ended := by
  induction h with
  | ended he => exact ⟨_, rfl, he⟩
  | @token t ts _ hts ih =>
    obtain ⟨u, hu, he⟩ := ih
    refine ⟨u, ?_, he⟩
    show (t :: ts).getLast? = some u
    rw [List.getLast?_cons, show ts.getLast? = some u from hu]
    rfl

/-- Tokens of lexical kinds in front of an input make an input. -/
theorem append (hu : ∀ u ∈ us, u.kind.isLexical = true) (h : Input ts) : Input (us ++ ts) := by
  induction us with
  | nil => exact h
  | cons u us ih =>
    obtain ⟨lexical, hu⟩ := List.forall_mem_cons.1 hu
    exact .token lexical (ih hu)

/-- What stands before a token is no end of the input. -/
theorem split (h : Input (us ++ t :: rest)) :
    (∀ u ∈ us, u.kind.isLexical = true) ∧ Input (t :: rest) := by
  induction us with
  | nil => exact ⟨List.forall_mem_nil _, h⟩
  | cons u us ih =>
    rw [List.cons_append] at h
    generalize hts : us ++ t :: rest = ts at h ih
    cases h with
    | ended => simp at hts
    | token lexical h =>
      obtain ⟨hu, ht⟩ := ih h
      exact ⟨List.forall_mem_cons.2 ⟨lexical, hu⟩, ht⟩

/-- The end of the input is the last token, and no other token is. -/
theorem eof_iff (h : Input (t :: rest)) : t.kind = .eof ↔ rest = [] := by
  cases h with
  | ended he => exact ⟨fun _ => rfl, fun _ => he⟩
  | token lexical h =>
    constructor
    · intro he
      rw [he] at lexical
      cases lexical
    · rintro rfl
      cases h

end Input

/-! ## The tokens of a text -/

/-- The kind of a lexeme is one that is scanned. -/
theorem Lexeme.isLexical {r : Radix} {previous : Option Kind} {after text : List Char} {t : Token}
    (h : Lexeme .standard r previous after t text) : t.kind.isLexical = true := by
  cases h with
  | keyword _ _ hl =>
    obtain ⟨l₁, l₂, split, -⟩ := List.lookup_eq_some_iff.1 hl
    have mem : _ ∈ KeywordTable.standard := split ▸ List.mem_append_right _ List.mem_cons_self
    obtain ⟨k, -, heq⟩ := List.mem_map.1 mem
    obtain ⟨-, rfl⟩ := Prod.mk.inj heq
    rfl
  | _ => rfl

/-- The tokens that a lexer reads to the end are an input. -/
theorem Lexer.input_of_tokensFrom {l l' : Lexer} {ts : List Token} (hk : l.keywords = .standard)
    (h : l.tokensFrom = .ok ts l') : Input ts := by
  refine tokensFrom_induction (motive := fun l ts => l.keywords = .standard → Input ts)
    (fun _ ht _ => .ended ht) ?_ h hk
  intro l l₁ t ts ha ht ih hk
  obtain ⟨_, _, _, -, -, -, rfl, ⟨-, end_⟩ | lexeme⟩ := exists_pieces_of_advance ha
  · exact absurd end_ ht
  · rw [hk] at lexeme
    exact .token lexeme.isLexical (ih hk)

/-- The tokens of a text are an input. -/
theorem input_of_tokenize {r : Radix} {source : String} {ts : List Token}
    (h : tokenize .standard r source = .ok ts) : Input ts := by
  rw [tokenize_eq, outcome_eq_ok_iff] at h
  obtain ⟨l, h⟩ := h
  exact Lexer.input_of_tokensFrom rfl h

/-! ## Failures -/

section
variable {entry : Entry} {t : Token} {us ts rest : List Token} {e : Fault}

/-- A parse of an input that fails rejects one of the tokens, and stops there. -/
theorem exists_rejected (hi : Input ts) (h : parseTokens entry ts = .error e) :
    ∃ us t rest, ts = us ++ t :: rest ∧ e.Reports t ∧
      (Rule.entry entry).parse (Tape.mk ts) = .error e (Tape.mk (t :: rest)) := by
  have valid : Valid (Tape.mk ts) := hi.ended_tape
  cases hp : (Rule.entry entry).parse (Tape.mk ts) with
  | ok node s =>
    rw [parseTokens_eq_outcome, hp] at h
    cases h
  | error e' s =>
    rw [parseTokens_eq_outcome, hp] at h
    cases h
    cases Rule.failsAt_of_parse valid hp with
    | @unread s₁ s₂ reads unread =>
      -- On a list of tokens there is always a next one.
      obtain ⟨us⟩ := s₁
      obtain ⟨u, hu⟩ := exists_current (reads.valid valid)
      match us, hu, unread with
      | [u], _, unread => cases unread
      | u :: v :: us, _, unread => cases unread
    | @rejected t reads current reports =>
      have suffix := (Rule.entry entry).left_suffix (stepsFor (Tape.mk ts)) (Tape.mk ts)
      rw [← Rule.parse_eq, hp] at suffix
      obtain ⟨rest⟩ := s
      obtain ⟨us, rfl⟩ := suffix
      obtain ⟨rest, rfl⟩ := List.head?_eq_some_iff.1 current
      exact ⟨us, t, rest, rfl, reports, rfl⟩

/-- The same error is raised whatever comes after the token that is rejected. -/
theorem parseTokens_eq_error {rest' : List Token} (hi : Input (us ++ t :: rest))
    (h : (Rule.entry entry).parse (Tape.mk (us ++ t :: rest)) = .error e (Tape.mk (t :: rest)))
    (hi' : Input (us ++ t :: rest')) : parseTokens entry (us ++ t :: rest') = .error e := by
  have valid : Valid (Tape.mk (us ++ t :: rest)) := hi.ended_tape
  have valid' : Valid (Tape.mk (us ++ t :: rest')) := hi'.ended_tape
  by_cases hne : rest = []
  · have last := (hi'.split.2.eof_iff).1 ((hi.split.2.eof_iff).2 hne)
    rw [last, ← hne, parseTokens_eq_outcome, h]
    rfl
  obtain ⟨x, hx⟩ := exists_first us t
  have settled : Settled ((Rule.entry entry).run (stepsFor _) _) :=
    Rule.settled_run_stepsFor valid
  rw [Rule.parse_eq] at h
  have related : Related (Alike t rest rest') _ _ :=
    (Rule.entry entry).related_of_left hne hx nofun settled (by rw [h]; rfl)
  rw [h] at related
  cases hc : (Rule.entry entry).run (stepsFor (Tape.mk (us ++ t :: rest)))
      (Tape.mk (us ++ t :: rest')) with
  | ok node s =>
    rw [hc] at related
    exact related.elim
  | error e' s =>
    rw [hc] at related
    obtain rfl : e = e' := related
    have settled' : Settled ((Rule.entry entry).run (stepsFor (Tape.mk (us ++ t :: rest)))
        (Tape.mk (us ++ t :: rest'))) := by
      intro s₁ he
      cases hc.symm.trans he
      exact settled _ h
    rw [parseTokens_eq_outcome, Rule.parse_eq_run valid' settled', hc]
    rfl

/-- What comes before the token that is rejected can be completed. -/
theorem exists_completion (hi : Input (us ++ t :: rest))
    (h : (Rule.entry entry).parse (Tape.mk (us ++ t :: rest)) = .error e (Tape.mk (t :: rest))) :
    ∃ ts node, Input (us ++ ts) ∧ parseTokens entry (us ++ ts) = .ok node := by
  have valid : Valid (Tape.mk (us ++ t :: rest)) := hi.ended_tape
  obtain ⟨x, hx⟩ := exists_first us t
  have settled : Settled ((Rule.entry entry).run (stepsFor _) _) :=
    Rule.settled_run_stepsFor valid
  rw [Rule.parse_eq] at h
  obtain ⟨ks, lexical, accepts⟩ :=
    (Rule.entry entry).completable hx nofun settled (by rw [h]; rfl)
  have ends : Follows (Rule.entry entry).stops [Kind.eof.token] :=
    ⟨List.mem_singleton_self _, fun _ => rfl⟩
  obtain ⟨node, parsed⟩ := accepts _ ends
  have lexical_tokens : ∀ u ∈ ks.map Kind.token, u.kind.isLexical = true := by
    intro u hu
    obtain ⟨k, hk, rfl⟩ := List.mem_map.1 hu
    exact lexical k hk
  have input := (Input.ended (t := Kind.eof.token) rfl).append lexical_tokens
  have input := input.append hi.split.1
  refine ⟨_, node, input, ?_⟩
  rw [parseTokens_eq_ok_iff input.ended_tape]
  exact ⟨_, Rule.parses_iff_derives.1 parsed⟩

end

/-- An input is rejected at the first of its tokens that does not fit. The error is about that token
and is the same whatever comes after it, and what comes before it can be completed. -/
theorem fails_at_first_misfit {entry : Entry} {ts : List Token} {e : Fault} (hi : Input ts)
    (h : parseTokens entry ts = .error e) :
    ∃ i t, ts[i]? = some t ∧ e.Reports t ∧
      (∀ ts', Input ts' → ts'.take (i + 1) = ts.take (i + 1) →
        parseTokens entry ts' = .error e) ∧
      ∃ rest node, Input (ts.take i ++ rest) ∧
        parseTokens entry (ts.take i ++ rest) = .ok node := by
  obtain ⟨us, t, rest, rfl, reports, failed⟩ := exists_rejected hi h
  refine ⟨us.length, t, by simp, reports, fun ts' hi' same => ?_, ?_⟩
  · have split := List.take_append_drop (us.length + 1) ts'
    rw [same, List.take_length_add_append, List.append_assoc] at split
    rw [← split] at hi' ⊢
    exact parseTokens_eq_error hi failed hi'
  · rw [List.take_left]
    exact exists_completion hi failed

/-- Two names in a row: the second one is rejected, whatever comes after it. -/
theorem fails_at_first_misfit_names : ∃ ts e, Input ts ∧ parseTokens .expression ts = .error e ∧
    ∃ i t, ts[i]? = some t ∧ e.Reports t ∧
      (∀ ts', Input ts' → ts'.take (i + 1) = ts.take (i + 1) →
        parseTokens .expression ts' = .error e) ∧
      ∃ rest node, Input (ts.take i ++ rest) ∧
        parseTokens .expression (ts.take i ++ rest) = .ok node := by
  have input : Input [⟨.ident, .text "a", ⟨0, 1, 1⟩⟩, ⟨.ident, .text "b", ⟨2, 1, 3⟩⟩,
      ⟨.eof, .text "EOF", ⟨3, 1, 4⟩⟩] := .token rfl (.token rfl (.ended rfl))
  have failed : parseTokens .expression [⟨.ident, .text "a", ⟨0, 1, 1⟩⟩,
      ⟨.ident, .text "b", ⟨2, 1, 3⟩⟩, ⟨.eof, .text "EOF", ⟨3, 1, 4⟩⟩] =
      .error (.atPosition (.tokenMismatch .eof .ident) 2) := by rfl
  exact ⟨_, _, input, failed, fails_at_first_misfit input failed⟩

end Quill
