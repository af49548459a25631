import Mathlib.Control.Monad.Basic
import Quill.Proofs.Feed

/-!
# Reading on demand and reading at once

A parse reads its tokens one by one as it goes, a token ahead of what it has consumed, and looks
further ahead at times. It comes to the same as reading all tokens first (`parse_agrees_tokenize`).
Where the text has tokens the parse is that of the list. Where it has none, because a token cannot
be read, the parse fails too: with that very error, or before that at one of the tokens that were
read (`Lexer.scanned`).

The second part rests on `FailsAt`: a parse that fails has been read on to where no token can be
read, which is where the reading of all tokens ends (`Lexer.error_eq`), or has been read on to a
token that it rejects, which is one of those that are read (`Lexer.mem_scanned`).
-/

namespace Quill

open TokenReader LawfulReader

namespace Lexer
variable {l l₁ l' l'' : Lexer} {t u : Token} {e e' : Fault}

/-- The tokens that can be read one after another, up to the end of the input or to where no token
can be read. -/
def scanned (l : Lexer) : List Token :=
  match _h : advance l with
  | .error _ _ => []
  | .ok t l' => if _ht : t.kind = .eof then [t] else t :: scanned l'
termination_by l.remaining
decreasing_by exact remaining_lt_of_advance _h _ht

/-- Where a token can be read, it is the first of those that can be. -/
theorem scanned_eq (h : advance l = .ok t l') :
    l.scanned = if t.kind = .eof then [t] else t :: l'.scanned := by
  rw [scanned]
  split <;> simp_all

/-- Where all tokens can be read, they are the ones that are. -/
theorem scanned_of_tokensFrom {ts : List Token} (h : l.tokensFrom = .ok ts l') :
    l.scanned = ts := by
  refine tokensFrom_induction (motive := fun l ts => l.scanned = ts) ?_ ?_ h
  · intro l l' t ha ht
    rw [scanned_eq ha, if_pos ht]
  · intro l l₁ t ts ha ht ih
    rw [scanned_eq ha, if_neg ht, ih]

/-- Where reading all tokens fails and the next one can be read, it is not the end of the input, and
reading those after it fails. -/
theorem tokensFrom_eq_error (h : l.tokensFrom = .error e l') (ha : advance l = .ok t l₁) :
    t.kind ≠ .eof ∧ l₁.tokensFrom = .error e l' := by
  rw [tokensFrom] at h
  split at h <;> simp_all only [reduceCtorEq, EStateM.Result.ok.injEq]
  obtain ⟨rfl, rfl⟩ := ha
  split at h
  · cases h
  · rename_i ht
    refine ⟨ht, ?_⟩
    split at h <;> simp_all

/-- Where reading all tokens fails, every token that can be come to is one of those that are
read. -/
theorem mem_scanned (h : l.tokensFrom = .error e l') (ha : advance l = .ok t l₁)
    (hr : Reaches l₁ l'') (hu : l''.current = some u) : u ∈ l.scanned := by
  induction hr using Relation.ReflTransGen.head_induction_on generalizing l t with
  | refl =>
    obtain ⟨ht, -⟩ := tokensFrom_eq_error h ha
    obtain ⟨-, rfl⟩ := advance_eq_ok ha
    cases hu
    simp [scanned_eq ha, ht]
  | head step _ ih =>
    obtain ⟨v, hv⟩ := step
    obtain ⟨ht, hr⟩ := tokensFrom_eq_error h ha
    rw [scanned_eq ha, if_neg ht]
    exact List.mem_cons_of_mem _ (ih hr hv)

/-- Where reading all tokens fails, no token can be read only for that reason. -/
theorem error_eq (h : l.tokensFrom = .error e l') (ha : advance l = .ok t l₁)
    (hr : Reaches l₁ l'') {l₂ : Lexer} (he : advance l'' = .error e' l₂) : e' = e := by
  induction hr using Relation.ReflTransGen.head_induction_on generalizing l t with
  | refl =>
    obtain ⟨-, hr⟩ := tokensFrom_eq_error h ha
    cases (tokensFrom_of_error he).symm.trans hr
    rfl
  | head step _ ih =>
    obtain ⟨v, hv⟩ := step
    exact ih (tokensFrom_eq_error h ha).2 hv

end Lexer

/-- The tokens of a text that can be read one after another, up to the end of the text or to where
no token can be read. -/
def scanned (keywords : KeywordTable) (r : Radix) (source : String) : List Token :=
  (Lexer.ofSource keywords r source).scanned

section
variable {keywords : KeywordTable} {r : Radix} {entry : Entry} {source : String}

/-- The tokens of a text that has tokens are those that can be read. -/
theorem scanned_of_tokenize {ts : List Token} (h : tokenize keywords r source = .ok ts) :
    scanned keywords r source = ts := by
  rw [tokenize_eq, outcome_eq_ok_iff] at h
  obtain ⟨l, h⟩ := h
  exact Lexer.scanned_of_tokensFrom h

/-- An outcome is a failure if what ran failed, in whatever state. -/
theorem outcome_eq_error_iff {σ α : Type} {x : EStateM.Result Fault σ α} {e : Fault} :
    outcome x = .error e ↔ ∃ s, x = .error e s := by
  cases x <;> simp [outcome]

/-- A text in which a token cannot be read is not parsed. The parse fails at that place, or at a
token before it. -/
theorem parse_of_tokenize_error {e : Fault} (h : tokenize keywords r source = .error e) :
    ∃ e', parse keywords r entry source = .error e' ∧
      (e' = e ∨ ∃ t ∈ scanned keywords r source, e'.Reports t) := by
  rw [tokenize_eq, outcome_eq_error_iff] at h
  obtain ⟨l', ht⟩ := h
  cases ha : advance (Lexer.ofSource keywords r source) with
  | error e₁ l₁ =>
    cases (Lexer.tokensFrom_of_error ha).symm.trans ht
    exact ⟨e, parse_of_advance_error ha, .inl rfl⟩
  | ok t l₁ =>
    cases hp : parse keywords r entry source with
    | ok node =>
      obtain ⟨ts, hts⟩ := exists_tokenize_of_parse hp
      rw [tokenize_eq, ht] at hts
      cases hts
    | error e' =>
      refine ⟨e', rfl, ?_⟩
      rw [parse_of_advance ha, outcome_eq_error_iff] at hp
      obtain ⟨l₂, hp⟩ := hp
      have valid : Valid l₁ := Lexer.valid_of_advance ha
      cases Rule.failsAt_of_parse valid hp with
      | unread hr he => exact .inl (Lexer.error_eq ht ha hr he)
      | rejected hr hu he => exact .inr ⟨_, Lexer.mem_scanned ht ha hr hu, he⟩

end

/-- Reading the tokens on demand comes to the same as reading them at once. If the text has tokens
it is parsed as their list is; if it has none the parse fails with the same error, or at one of the
tokens before; so a text that is parsed has tokens. -/
theorem parse_agrees_tokenize (r : Radix) (entry : Entry) (source : String) :
    (∀ ts, tokenize .standard r source = .ok ts →
      parse .standard r entry source = parseTokens entry ts) ∧
    (∀ e, tokenize .standard r source = .error e →
      ∃ e', parse .standard r entry source = .error e' ∧
        (e' = e ∨ ∃ t ∈ scanned .standard r source, e'.Reports t)) ∧
    ∀ node, parse .standard r entry source = .ok node →
      ∃ ts, tokenize .standard r source = .ok ts :=
  ⟨fun _ => parse_eq_parseTokens KeywordTable.noEnd_standard, fun _ => parse_of_tokenize_error,
    fun _ => exists_tokenize_of_parse⟩

/-- The break after a name is taken as it stands in the list of tokens. In the second text the
character that begins no token is not what the parse fails at: it has rejected the second name. -/
theorem parse_agrees_tokenize_stray :
    parse .standard .decimal .expression "a\n" =
      parseTokens .expression [⟨.ident, .text "a", ⟨0, 1, 1⟩⟩,
        ⟨.op .lineEnd, .text "\n", ⟨1, 1, 2⟩⟩, ⟨.eof, .text "EOF", ⟨2, 2, 1⟩⟩] ∧
    (∃ ts, tokenize .standard .decimal "a\n" = .ok ts) ∧
    ∃ e', parse .standard .decimal .expression "a b $" = .error e' ∧
      (e' = .atPosition (.unexpectedCharacter "$") 4 ∨
        ∃ t ∈ scanned .standard .decimal "a b $", e'.Reports t) := by
  have tokens : tokenize .standard .decimal "a\n" = .ok [⟨.ident, .text "a", ⟨0, 1, 1⟩⟩,
      ⟨.op .lineEnd, .text "\n", ⟨1, 1, 2⟩⟩, ⟨.eof, .text "EOF", ⟨2, 2, 1⟩⟩] := by decide +kernel
  have parsed : parse .standard .decimal .expression "a\n" =
      .ok (.expr (.leaf .symbol (.text "a") 0)) := by rfl
  have stray : tokenize .standard .decimal "a b $" =
      .error (.atPosition (.unexpectedCharacter "$") 4) := by decide +kernel
  obtain ⟨atOnce, -, has⟩ := parse_agrees_tokenize .decimal .expression "a\n"
  obtain ⟨-, fails, -⟩ := parse_agrees_tokenize .decimal .expression "a b $"
  exact ⟨atOnce _ tokens, has _ parsed, fails _ stray⟩

end Quill
