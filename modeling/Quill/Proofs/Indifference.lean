import Mathlib.Data.List.Forall2
import Quill.Proofs.Doubling
import Quill.Proofs.ValidPrefix

/-!
# What a parse does not depend on

Of a text only its tokens count, and of these only the kinds, and the values of those that are no
operators (`parse_indifferent`). Blanks, comments and line breaks within a list of tokens that stays
the same, and the two spellings of a terminator, make no difference but for positions: two texts
whose tokens are the same one by one are parsed as trees that are the same, or fail in the same way
at tokens with the same index.

The tapes of these tokens keep step, without any second terminators, so this is what comes of
`Rule.ends` there.
-/

namespace Quill

open TokenReader LawfulReader

/-! ## Tokens that are the same -/

/-- Tokens that are the same are alike, if none stands for all operators. -/
theorem Token.like_of_same {t u : Token} (ht : t.kind ≠ .anyOp) (hu : u.kind ≠ .anyOp)
    (h : t.same u = true) : t.Like u := by
  rw [Token.same] at h
  split at h
  · rename_i operator
    rw [Token.hasKind, if_neg (by simp [ht, hu]), decide_eq_true_eq] at h
    rw [isOperator, isOperator, ← h, Bool.or_self] at operator
    exact ⟨h, fun no => absurd (operator.symm.trans no) (by decide)⟩
  · rw [Bool.and_eq_true, decide_eq_true_eq] at h
    exact ⟨h.1, fun _ => h.2⟩

/-- No token of an input is the wildcard. -/
theorem Input.kind_ne_anyOp {ts : List Token} (h : Input ts) : ∀ t ∈ ts, t.kind ≠ .anyOp := by
  induction h with
  | ended he => simp [he]
  | token lexical _ ih =>
    refine List.forall_mem_cons.2 ⟨fun hk => ?_, ih⟩
    rw [hk] at lexical
    cases lexical

/-- Inputs whose tokens are the same are alike. -/
theorem forall₂_like_of_sameTokens {ts us : List Token} (ht : ∀ t ∈ ts, t.kind ≠ .anyOp)
    (hu : ∀ u ∈ us, u.kind ≠ .anyOp) (h : sameTokens ts us = true) :
    List.Forall₂ Token.Like ts us := by
  induction ts generalizing us with
  | nil =>
    cases us with
    | nil => exact .nil
    | cons u us => cases h
  | cons t ts ih =>
    cases us with
    | nil => cases h
    | cons u us =>
      rw [sameTokens, Bool.and_eq_true] at h
      rw [List.forall_mem_cons] at ht hu
      exact .cons (Token.like_of_same ht.1 hu.1 h.1) (ih ht.2 hu.2 h.2)

/-! ## Tapes -/

/-- The tapes have tokens that are alike one by one. -/
def Tape.Like (s t : Tape) : Prop := s.tokens ≠ [] ∧ List.Forall₂ Token.Like s.tokens t.tokens

/-- Tapes of like tokens keep step. -/
theorem Tape.keepStep_like : KeepStep Tape.Like where
  current := by
    rintro ⟨ts⟩ ⟨us⟩ ⟨nonempty, like⟩
    cases like with
    | nil => exact absurd rfl nonempty
    | cons htu _ => exact ⟨_, _, rfl, rfl, htu⟩
  advance := by
    rintro ⟨ts⟩ ⟨us⟩ ⟨nonempty, like⟩
    refine .inl ?_
    cases like with
    | nil => exact absurd rfl nonempty
    | cons htu rest =>
      cases rest with
      | nil => exact .ok htu ⟨nonempty, .cons htu .nil⟩
      | cons next rest => exact .ok next ⟨List.cons_ne_nil _ _, .cons next rest⟩

/-- A token can always be read from a tape that holds one. -/
theorem Tape.not_unread {e : Fault} : ¬Unread Tape.Like e := by
  rintro ⟨⟨ts⟩, s', t, ⟨nonempty, -⟩, ha⟩
  match ts, nonempty, ha with
  | [t], _, ha => cases ha
  | t :: u :: ts, _, ha => cases ha

/-- Two tapes that are alike, and that have been read from two others, are so from the same index
on. -/
theorem Tape.Like.exists_index {s t : Tape} {ts us : List Token} {u v : Token}
    (h : s.Like t) (hs : s.tokens <:+ ts) (ht : t.tokens <:+ us) (hl : ts.length = us.length)
    (hu : current? s = some u) (hv : current? t = some v) :
    ∃ i : Nat, ts[i]? = some u ∧ us[i]? = some v := by
  obtain ⟨as, rfl⟩ := hs
  obtain ⟨bs, rfl⟩ := ht
  have length : as.length = bs.length := by
    have same := h.2.length_eq
    rw [List.length_append, List.length_append] at hl
    omega
  refine ⟨as.length, ?_, ?_⟩
  · rw [List.getElem?_append_right (Nat.le_refl _), Nat.sub_self, ← List.head?_eq_getElem?]
    exact hu
  · rw [length, List.getElem?_append_right (Nat.le_refl _), Nat.sub_self,
      ← List.head?_eq_getElem?]
    exact hv

/-! ## Texts -/

/-- Lists of tokens that are alike are parsed as trees that are the same, or the parses fail in the
same way at tokens with the same index. -/
theorem parseTokens_like {entry : Entry} {ts us : List Token} (ht : (Tape.mk ts).Ended)
    (hu : (Tape.mk us).Ended) (like : List.Forall₂ Token.Like ts us) :
    (∃ node node', parseTokens entry ts = .ok node ∧ parseTokens entry us = .ok node' ∧
      node.same node' = true) ∨
    ∃ cause, ∃ (i : Nat) (t u : Token), ts[i]? = some t ∧ us[i]? = some u ∧
      parseTokens entry ts = .error (.atPosition cause t.pos) ∧
      parseTokens entry us = .error (.atPosition cause u.pos) := by
  have tapes : Tape.Like ⟨ts⟩ ⟨us⟩ := by
    refine ⟨?_, like⟩
    obtain ⟨t, ht, -⟩ := ht
    rintro rfl
    cases ht
  have plain : (Rule.entry entry).Like (.entry entry) := .plain rfl
  have ends := Rule.ends_parse Tape.keepStep_like plain (.inl ⟨tapes, fun _ _ h => nomatch h⟩) ht hu
  have left := (Rule.entry entry).left_suffix (stepsFor (Tape.mk ts)) ⟨ts⟩
  have left' := (Rule.entry entry).left_suffix (stepsFor (Tape.mk us)) ⟨us⟩
  rw [← Rule.parse_eq] at left left'
  rw [parseTokens_eq_outcome, parseTokens_eq_outcome]
  generalize (Rule.entry entry).parse (Tape.mk ts) = x,
    (Rule.entry entry).parse (Tape.mk us) = y at ends left left'
  cases ends with
  | ok same _ => exact .inl ⟨_, _, rfl, rfl, same⟩
  | behind lags | failing lags => cases lags
  | rejected still ht hu =>
    obtain ⟨i, hi, hi'⟩ := still.exists_index left left' like.length_eq ht hu
    exact .inr ⟨_, i, _, _, hi, hi', rfl, rfl⟩
  | unread unread _ => exact absurd unread Tape.not_unread

/-- Texts whose tokens are the same one by one are parsed as trees that are the same, or the parses
fail in the same way at tokens with the same index. -/
theorem parse_indifferent {r : Radix} {entry : Entry} {source source' : String}
    {ts us : List Token} (ht : tokenize .standard r source = .ok ts)
    (hu : tokenize .standard r source' = .ok us) (same : sameTokens ts us = true) :
    (∃ node node', parse .standard r entry source = .ok node ∧
      parse .standard r entry source' = .ok node' ∧ node.same node' = true) ∨
    ∃ cause, ∃ (i : Nat) (t u : Token), ts[i]? = some t ∧ us[i]? = some u ∧
      parse .standard r entry source = .error (.atPosition cause t.pos) ∧
      parse .standard r entry source' = .error (.atPosition cause u.pos) := by
  have noEnd := KeywordTable.noEnd_standard
  have like := forall₂_like_of_sameTokens (input_of_tokenize ht).kind_ne_anyOp
    (input_of_tokenize hu).kind_ne_anyOp same
  rw [parse_eq_parseTokens noEnd ht, parse_eq_parseTokens noEnd hu]
  exact parseTokens_like (ended_of_tokenize noEnd ht) (ended_of_tokenize noEnd hu) like

/-- A semicolon does the same as a line break with a comment before it. -/
theorem parse_indifferent_terminator : ∃ ts us, tokenize .standard .decimal "a;" = .ok ts ∧
    tokenize .standard .decimal " a # b\n" = .ok us ∧ sameTokens ts us = true ∧
    ((∃ node node', parse .standard .decimal .statement "a;" = .ok node ∧
      parse .standard .decimal .statement " a # b\n" = .ok node' ∧ node.same node' = true) ∨
    ∃ cause, ∃ (i : Nat) (t u : Token), ts[i]? = some t ∧ us[i]? = some u ∧
      parse .standard .decimal .statement "a;" = .error (.atPosition cause t.pos) ∧
      parse .standard .decimal .statement " a # b\n" = .error (.atPosition cause u.pos)) := by
  have tokens : tokenize .standard .decimal "a;" = .ok [⟨.ident, .text "a", ⟨0, 1, 1⟩⟩,
      ⟨.op .lineEnd, .text ";", ⟨1, 1, 2⟩⟩, ⟨.eof, .text "EOF", ⟨2, 1, 3⟩⟩] := by decide +kernel
  have tokens' : tokenize .standard .decimal " a # b\n" = .ok [⟨.ident, .text "a", ⟨1, 1, 2⟩⟩,
      ⟨.op .lineEnd, .text "\n", ⟨6, 1, 7⟩⟩, ⟨.eof, .text "EOF", ⟨7, 2, 1⟩⟩] := by
    decide +kernel
  exact ⟨_, _, tokens, tokens', rfl, parse_indifferent tokens tokens' rfl⟩

end Quill
