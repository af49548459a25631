import Quill.Proofs.Concatenation

/-!
# Rules where the input goes on

A rule that is derived up to the end of the input is derived, with the same tree, where a terminator
and a closing brace stand instead of the end (`Rule.Derives.carries`). It comes to the terminator
there, and if it can consume one it has gone past it (`Tape.Follows`).

This is proved by induction on the derivation. Many rules are of the same shape, above all the five
chains of operators, and what such a rule does is a lemma about the shape (`Continued.chain`,
`Continued.chainEnd`, `Continued.chainTail`). Only a list of statements goes on where the input
ends, and only the placeholder for an operand is read there; both are excluded where the end is
reached, and nowhere else (`Rule.Whole`).
-/

namespace Quill

open TokenReader

/-! ## Rules at the end of the input -/

/-- Whether the rule can consume the terminator that it ends with. -/
def Rule.crosses : {c : Category} → Rule c → Bool
  | _, terminators | _, statement | _, named | _, ret | _, branch | _, clauses | _, clause _ => true
  | _, _ => false

/-- What is required of a rule that comes to the end of the input: it is no list of statements, and
no operand is missing. -/
def Rule.Whole : {c : Category} → Rule c → c.Tree → Prop
  | _, statements, _ => False
  | c, _, a => (c.nodes a).Forall Node.Whole

/-! ## How the tapes stand -/

section
variable {b brace t u : Token} {more : List Token} {s s₁ s' : Tape}

/-- A token that is not the end of the input is current on both tapes. -/
theorem Continued.current_of_ne (h : Continued b more s.tokens s'.tokens)
    (ht : current? s = some t) (hk : t.kind ≠ .eof) : current? s' = some t :=
  (h.current (not_atEnd_of_current ht hk)).trans ht

/-- A token of a kind other than the end of the input is current on both tapes. -/
theorem Continued.current_of_kind {kind : Kind} (h : Continued b more s.tokens s'.tokens)
    (ht : current? s = some t) (hk : t.kind = kind) (hn : kind ≠ .eof) : current? s' = some t :=
  h.current_of_ne ht (hk ▸ hn)

/-- The same token is current, or the terminator where the input ends. -/
theorem Continued.exists_current (h : Continued b more s.tokens s'.tokens)
    (hb : b.kind = .op .lineEnd) (ht : current? s = some t) :
    ∃ t', current? s' = some t' ∧ (t' = t ∨ t.kind = .eof ∧ t'.kind = .op .lineEnd) := by
  by_cases hk : t.kind = .eof
  · obtain rfl := h.eq_of_atEnd ⟨t, ht, hk⟩
    exact ⟨b, rfl, .inr ⟨hk, hb⟩⟩
  · exact ⟨t, h.current_of_ne ht hk, .inl rfl⟩

/-- A token of none of these kinds is current. -/
theorem Continued.exists_current_not_mem {kinds : List Kind}
    (h : Continued b more s.tokens s'.tokens) (hb : b.kind = .op .lineEnd)
    (hn : .op .lineEnd ∉ kinds) (ht : current? s = some t) (hk : t.kind ∉ kinds) :
    ∃ t', current? s' = some t' ∧ t'.kind ∉ kinds := by
  obtain ⟨t', ht', rfl | ⟨-, hl⟩⟩ := h.exists_current hb ht
  · exact ⟨t', ht', hk⟩
  · exact ⟨t', ht', hl ▸ hn⟩

/-- A token of another kind than this is current. -/
theorem Continued.exists_current_ne {kind : Kind} (h : Continued b more s.tokens s'.tokens)
    (hb : b.kind = .op .lineEnd) (hn : .op .lineEnd ≠ kind) (ht : current? s = some t)
    (hk : t.kind ≠ kind) : ∃ t', current? s' = some t' ∧ t'.kind ≠ kind := by
  obtain ⟨t', ht', hk'⟩ := h.exists_current_not_mem hb (mt List.mem_singleton.1 hn) ht
    (mt List.mem_singleton.1 hk)
  exact ⟨t', ht', mt List.mem_singleton.2 hk'⟩

/-- The same token is foreseen, or the terminator where the input ends. -/
theorem Continued.foresees (h : Continued b more s.tokens s'.tokens) (hs : ¬AtEnd s)
    (hf : Foresees s u) (hb : b.kind = .op .lineEnd) :
    ∃ u', Foresees s' u' ∧ (u' = u ∨ u.kind = .eof ∧ u'.kind = .op .lineEnd) := by
  obtain ⟨ts⟩ := s
  obtain ⟨ts'⟩ := s'
  obtain ⟨s₁, hf⟩ := hf
  cases h with
  | ended he => exact absurd ⟨_, rfl, he⟩ hs
  | token _ h =>
    cases h with
    | ended he =>
      cases hf
      exact ⟨b, Tape.foresees, .inr ⟨he, hb⟩⟩
    | token =>
      cases hf
      exact ⟨u, Tape.foresees, .inl rfl⟩

/-- An item or the end of a list is next on both tapes. -/
theorem Continued.separates {kinds : List Kind} (h : Continued b more s.tokens s'.tokens)
    (hs : Separates kinds s) (hn : .eof ∉ kinds) : Separates kinds s' := by
  obtain ⟨t, ht, hk⟩ := hs
  refine ⟨t, h.current_of_ne ht fun he => ?_, hk⟩
  rw [he] at hk
  exact hk.elim nofun hn

/-- A terminator has not been passed where the first tape has not ended. -/
theorem Tape.Passed.continued {r : Tape} (h : Tape.Passed b more r s s') (hs : ¬AtEnd s) :
    Continued b more s.tokens s'.tokens :=
  h.elim (·.2) fun h => absurd h.1 hs

variable (b brace more)

/-- The second tape goes on with the terminator where the first one ends; or, after a rule that can
consume the terminator, the first tape has ended and the second one stands at the brace. -/
def Tape.Follows (crosses : Bool) (s s' : Tape) : Prop :=
  Continued b (brace :: more) s.tokens s'.tokens ∨
    crosses = true ∧ AtEnd s ∧ s' = ⟨brace :: more⟩

variable {b brace more} {crosses : Bool}

/-- After a rule that cannot consume the terminator the second tape still goes on with it. -/
theorem Tape.Follows.continued (h : Follows b brace more false s s') :
    Continued b (brace :: more) s.tokens s'.tokens :=
  h.resolve_right fun h => nomatch h.1

/-- Where the first tape has not ended the second one still goes on with the terminator. -/
theorem Tape.Follows.continued_of_not_atEnd (h : Follows b brace more crosses s s')
    (hs : ¬AtEnd s) : Continued b (brace :: more) s.tokens s'.tokens :=
  h.resolve_right fun h => hs h.2.1

/-- To have gone past the terminator is what a rule does that can consume it. -/
theorem Tape.Passed.follows (h : Tape.Passed b (brace :: more) ⟨brace :: more⟩ s s') :
    Follows b brace more true s s' :=
  h.imp (·.2) fun h => ⟨rfl, h⟩

/-! ## Shapes of rules

A rule is of a shape by its constructor in `Rule.Derives`, which is the argument `mk`. What its
parts come to on the second tape is assumed: in the induction it is the induction hypothesis. -/

section
variable {c d : Category} {rule : Rule c} {inner : Rule d} {a : c.Tree} {x : d.Tree}
  {kind opening closing : Kind} {s₂ s₃ : Tape} {v : Token}

/-- A rule that consumes a single token. -/
theorem Continued.single (h : Continued b (brace :: more) s.tokens s'.tokens)
    (mk : ∀ {p q : Tape}, Consumes kind p t q → rule.Derives p a q) (hc : Consumes kind s t s₁)
    (hk : kind ≠ .eof) :
    ∃ s₁', rule.Derives s' a s₁' ∧ Tape.Follows b brace more crosses s₁ s₁' := by
  obtain ⟨s₁', hc', after⟩ := h.consumes hc hk
  exact ⟨s₁', mk hc', .inl after⟩

/-- A rule whose tree stands after a token. -/
theorem Continued.preceded (h : Continued b (brace :: more) s.tokens s'.tokens)
    (mk : ∀ {p q r : Tape}, Consumes kind p t q → inner.Derives q x r → rule.Derives p a r)
    (hc : Consumes kind s t s₁) (hk : kind ≠ .eof)
    (carries : ∀ {p : Tape}, Continued b (brace :: more) s₁.tokens p.tokens →
      ∃ q, inner.Derives p x q ∧ Tape.Follows b brace more crosses s₂ q) :
    ∃ s₂', rule.Derives s' a s₂' ∧ Tape.Follows b brace more crosses s₂ s₂' := by
  obtain ⟨_, hc', opened⟩ := h.consumes hc hk
  obtain ⟨s₂', hx', after⟩ := carries opened
  exact ⟨s₂', mk hc' hx', after⟩

/-- A rule whose tree stands between two tokens. -/
theorem Continued.enclosed (h : Continued b (brace :: more) s.tokens s'.tokens)
    (mk : ∀ {p q r p' : Tape}, Consumes opening p t q → inner.Derives q x r →
      Consumes closing r v p' → rule.Derives p a p')
    (ho : Consumes opening s t s₁) (hopen : opening ≠ .eof)
    (carries : ∀ {p : Tape}, Continued b (brace :: more) s₁.tokens p.tokens →
      ∃ q, inner.Derives p x q ∧ Tape.Follows b brace more false s₂ q)
    (hc : Consumes closing s₂ v s₃) (hclose : closing ≠ .eof) :
    ∃ s₃', rule.Derives s' a s₃' ∧ Tape.Follows b brace more crosses s₃ s₃' := by
  obtain ⟨_, ho', opened⟩ := h.consumes ho hopen
  obtain ⟨_, hx', inside⟩ := carries opened
  obtain ⟨s₃', hc', after⟩ := inside.continued.consumes hc hclose
  exact ⟨s₃', mk ho' hx' hc', .inl after⟩

end

section
variable {rule operand tail : Rule .expr} {l r e : Expr} {kind : Kind} {kinds : List Kind}
  {pos : Int} {s₂ s₃ : Tape}

/-- If nothing is missing in a chain, nothing is in the tree that it is given. -/
theorem whole_of_finished (h : AtEnd s → e = l ∧ s₁ = s) (whole : AtEnd s₁ → (Node.expr e).Whole)
    (hs : AtEnd s) : (Node.expr l).Whole := by
  obtain ⟨rfl, rfl⟩ := h hs
  exact whole hs

/-- A chain of operators: an operand, and what is joined to it. -/
theorem Continued.chain
    (mk : ∀ {p q r : Tape}, operand.Derives p l q → tail.Derives q e r → rule.Derives p e r)
    (finished : AtEnd s₁ → e = l ∧ s₂ = s₁) (whole : AtEnd s₂ → (Node.expr e).Whole)
    (carries : (AtEnd s₁ → (Node.expr l).Whole) →
      ∃ q, operand.Derives s' l q ∧ Tape.Follows b brace more false s₁ q)
    (goesOn : ∀ {p : Tape}, Continued b (brace :: more) s₁.tokens p.tokens →
      ∃ q, tail.Derives p e q ∧ Tape.Follows b brace more false s₂ q) :
    ∃ s₂', rule.Derives s' e s₂' ∧ Tape.Follows b brace more false s₂ s₂' := by
  obtain ⟨_, hl', first⟩ := carries (whole_of_finished finished whole)
  obtain ⟨s₂', ht', after⟩ := goesOn first.continued
  exact ⟨s₂', mk hl' ht', after⟩

/-- The end of a chain, where none of its operators is next. -/
theorem Continued.chainEnd (h : Continued b (brace :: more) s.tokens s'.tokens)
    (hb : b.kind = .op .lineEnd)
    (mk : ∀ {p : Tape} {t}, current? p = some t → t.kind ∉ kinds → rule.Derives p e p)
    (hn : .op .lineEnd ∉ kinds) (ht : current? s = some t) (hk : t.kind ∉ kinds) :
    ∃ s₁', rule.Derives s' e s₁' ∧ Tape.Follows b brace more false s s₁' := by
  obtain ⟨_, ht', hk'⟩ := h.exists_current_not_mem hb hn ht hk
  exact ⟨s', mk ht' hk', .inl h⟩

/-- The tail of a chain: one more operator and its right operand, and what is joined to both. -/
theorem Continued.chainTail (h : Continued b (brace :: more) s.tokens s'.tokens)
    (mk : ∀ {p q r' p' : Tape}, Consumes kind p t q → operand.Derives q r r' →
      tail.Derives r' e p' → rule.Derives p e p')
    (hc : Consumes kind s t s₁) (hk : kind ≠ .eof)
    (finished : AtEnd s₂ → e = .binary t l r pos ∧ s₃ = s₂)
    (whole : AtEnd s₃ → (Node.expr e).Whole)
    (carries : ∀ {p : Tape}, (AtEnd s₂ → (Node.expr r).Whole) →
      Continued b (brace :: more) s₁.tokens p.tokens →
      ∃ q, operand.Derives p r q ∧ Tape.Follows b brace more false s₂ q)
    (goesOn : ∀ {p : Tape}, Continued b (brace :: more) s₂.tokens p.tokens →
      ∃ q, tail.Derives p e q ∧ Tape.Follows b brace more false s₃ q) :
    ∃ s₃', rule.Derives s' e s₃' ∧ Tape.Follows b brace more false s₃ s₃' := by
  have joined := whole_of_finished finished whole
  obtain ⟨_, hc', sign⟩ := h.consumes hc hk
  obtain ⟨_, hr', right⟩ := carries (fun he => (Node.whole_iff.1 (joined he)).2.2) sign
  obtain ⟨s₃', ht', after⟩ := goesOn right.continued
  exact ⟨s₃', mk hc' hr' ht', after⟩

end

/-- No terminators stand at the brace. -/
theorem terminators_brace (hbrace : brace.kind = .op .rbrace) :
    Rule.terminators.Derives (Tape.mk (brace :: more)) () ⟨brace :: more⟩ :=
  .noTerminators rfl (by rw [hbrace]; nofun)

section
variable (hb : b.kind = .op .lineEnd) (hbrace : brace.kind = .op .rbrace)
include hb

/-- A terminator is consumed on the second tape if it is on the first, and also where that one
ends. -/
theorem Continued.terminates (h : Continued b (brace :: more) s.tokens s'.tokens)
    (ht : Terminates s s₁) : ∃ s₁', Terminates s' s₁' ∧ Tape.Follows b brace more true s₁ s₁' := by
  obtain ⟨t, hc, ⟨hk, consumes⟩ | ⟨hk, rfl⟩⟩ := ht
  · obtain ⟨s₁', consumes', after⟩ := h.consumes consumes nofun
    exact ⟨s₁', ⟨t, consumes'.current, .inl ⟨hk, consumes'⟩⟩, .inl after⟩
  obtain ⟨t', ht', rfl | ⟨eof, hl⟩⟩ := h.exists_current hb hc
  · exact ⟨s', ⟨t', ht', .inr ⟨hk, rfl⟩⟩, .inl h⟩
  · obtain rfl := h.eq_of_atEnd ⟨t, hc, eof⟩
    have line := Tape.consumes_of_kind (List.cons_ne_nil brace more) hb
    exact ⟨_, ⟨b, rfl, .inl ⟨hb, line⟩⟩, .inr ⟨rfl, ⟨t, hc, eof⟩, rfl⟩⟩

/-- An expression with the terminator after it, or with the end of the input. -/
theorem Terminates.line {e : Expr} {s₂ : Tape} (hl : Terminates s₁ s₂)
    (whole : AtEnd s₂ → (Node.expr e).Whole)
    (carries : (AtEnd s₁ → (Node.expr e).Whole) →
      ∃ q, Rule.expr.Derives s' e q ∧ Tape.Follows b brace more false s₁ q) :
    ∃ q s₂', Rule.expr.Derives s' e q ∧ Terminates q s₂' ∧
      Tape.Follows b brace more true s₂ s₂' := by
  obtain ⟨q, he', after⟩ := carries fun he => whole (atEnd_of_terminates hl he)
  obtain ⟨s₂', hl', follows⟩ := after.continued.terminates hb hl
  exact ⟨q, s₂', he', hl', follows⟩

include hbrace

/-- Terminators are skipped, up to the brace where the first tape ends. -/
theorem Continued.skips (h : Continued b (brace :: more) s.tokens s'.tokens)
    (hx : Rule.terminators.Derives s () s₁) : ∃ s₁', Rule.terminators.Derives s' () s₁' ∧
      Tape.Passed b (brace :: more) ⟨brace :: more⟩ s₁ s₁' :=
  h.terminators hb (List.cons_ne_nil _ _) (terminators_brace hbrace) hx

/-- So are the terminators after a rule. -/
theorem Tape.Follows.terminators (h : Follows b brace more crosses s s')
    (hx : Rule.terminators.Derives s () s₁) : ∃ s₁', Rule.terminators.Derives s' () s₁' ∧
      Tape.Passed b (brace :: more) ⟨brace :: more⟩ s₁ s₁' := by
  rcases h with h | ⟨-, ended, rfl⟩
  · exact h.skips hb hbrace hx
  · exact ⟨_, terminators_brace hbrace, .inr ⟨atEnd_of_terminators hx ended, rfl⟩⟩

/-- After a clause the terminators and the further clauses come. Where the first tape has ended
there are none, nor are there any at the brace. -/
theorem Tape.Follows.clauses {cs : List Clause} {s₂ : Tape} (h : Follows b brace more crosses s s')
    (hx : Rule.terminators.Derives s () s₁) (hcs : Rule.clauses.Derives s₁ cs s₂)
    (carries : ∀ {p : Tape}, Continued b (brace :: more) s₁.tokens p.tokens →
      ∃ q, Rule.clauses.Derives p cs q ∧ Follows b brace more true s₂ q) :
    ∃ s₁' s₂', Rule.terminators.Derives s' () s₁' ∧ Rule.clauses.Derives s₁' cs s₂' ∧
      Follows b brace more true s₂ s₂' := by
  obtain ⟨s₁', hx', ⟨-, hs⟩ | ⟨ended, rfl⟩⟩ := h.terminators hb hbrace hx
  · obtain ⟨s₂', hcs', after⟩ := carries hs
    exact ⟨s₁', s₂', hx', hcs', after⟩
  · cases hcs with
    | noClauses =>
      exact ⟨_, _, hx', .noClauses rfl (by rw [hbrace]; nofun), .inr ⟨rfl, ended, rfl⟩⟩
    | clauses _ hc => exact absurd ended (hc.not_atEnd nofun)

/-- After a rule too the token is not of this kind, if neither the terminator nor the brace is. -/
theorem Tape.Follows.exists_current_ne {kind : Kind} (h : Follows b brace more crosses s s')
    (hn : .op .lineEnd ≠ kind) (hn' : .op .rbrace ≠ kind) (ht : current? s = some t)
    (hk : t.kind ≠ kind) : ∃ t', current? s' = some t' ∧ t'.kind ≠ kind := by
  rcases h with hs | ⟨-, -, rfl⟩
  · exact hs.exists_current_ne hb hn ht hk
  · exact ⟨brace, rfl, hbrace ▸ hn'⟩

/-! ## What every rule does -/

/-- A rule that is derived from the first tape comes to the same tree on the second one, which then
goes on with the terminator where the first one ends, or has gone past it. -/
theorem Rule.Derives.carries {c : Category} {rule : Rule c} {a : c.Tree}
    (h : rule.Derives s a s₁) (hr : rule.closes = false) (whole : AtEnd s₁ → rule.Whole a)
    (hs : Continued b (brace :: more) s.tokens s'.tokens)
    (ready : rule.looksAhead = true → ∀ x, current? s = some x → x.kind = .ident) :
    ∃ s₁', rule.Derives s' a s₁' ∧ Tape.Follows b brace more rule.crosses s₁ s₁' := by
  induction h generalizing s' with
  | wholeProgram | wholeExpression | wholeCondition | wholeStatement | end_ | program | noFunctions
  | functions => cases hr
  | noTerminators ht hk =>
    obtain ⟨s₁', hx', passed⟩ := hs.skips hb hbrace (.noTerminators ht hk)
    exact ⟨s₁', hx', passed.follows⟩
  | terminators hl hc hx =>
    obtain ⟨s₁', hx', passed⟩ := hs.skips hb hbrace (.terminators hl hc hx)
    exact ⟨s₁', hx', passed.follows⟩
  | function hf hn _ _ ihp ihb =>
    obtain ⟨_, hf', hs⟩ := hs.consumes hf nofun
    obtain ⟨_, hn', hs⟩ := hs.consumes hn nofun
    obtain ⟨_, hp', hs⟩ := ihp rfl (fun _ => Node.whole_iff.2 ⟨rfl, trivial⟩) hs nofun
    obtain ⟨_, hb', hs⟩ := ihb rfl (fun he => (Node.whole_iff.1 (whole he)).2.2) hs.continued nofun
    exact ⟨_, .function hf' hn' hp' hb', hs⟩
  | params ho _ hc ih =>
    exact hs.enclosed .params ho nofun (ih rfl (fun _ => trivial) · nofun) hc nofun
  | noNames ht hk => exact ⟨_, .noNames (hs.current_of_kind ht hk nofun) hk, .inl hs⟩
  | lastName ht hk hn ht' hk' =>
    have first := hs.current_of_ne ht fun he => hn.not_atEnd nofun ⟨_, ht, he⟩
    obtain ⟨_, hn', hs⟩ := hs.consumes hn nofun
    obtain ⟨_, hu, hl⟩ := hs.exists_current_ne hb (by decide) ht' hk'
    exact ⟨_, .lastName first hk hn' hu hl, .inl hs⟩
  | names ht hk hn hk' hc hsep _ ih =>
    have first := hs.current_of_ne ht fun he => hn.not_atEnd nofun ⟨_, ht, he⟩
    obtain ⟨_, hn', hs⟩ := hs.consumes hn nofun
    obtain ⟨_, hc', hs⟩ := hs.consumes hc nofun
    obtain ⟨_, hns', hs'⟩ := ih rfl whole hs nofun
    exact ⟨_, .names first hk hn' hk' hc' (hs.separates hsep (by decide)) hns', hs'⟩
  | scope ho hx hss hc _ ih =>
    have before := hc.not_atEnd nofun
    obtain ⟨_, ho', hs⟩ := hs.consumes ho nofun
    obtain ⟨_, hx', passed⟩ := hs.skips hb hbrace hx
    have hs := passed.continued fun he => before (atEnd_of_statements hss he).2
    obtain ⟨_, hss', hs⟩ := ih rfl (absurd · before) hs nofun
    obtain ⟨_, hc', hs⟩ := hs.continued.consumes hc nofun
    exact ⟨_, .scope ho' hx' hss' hc', .inl hs⟩
  | noStatements ht hk =>
    have before : ¬AtEnd _ := whole
    exact ⟨_, .noStatements ((hs.current before).trans ht) hk, .inl hs⟩
  | statements ht hk _ hx hss iha _ ihss =>
    have before : ¬AtEnd _ := whole
    have before₂ : ¬AtEnd _ := fun he => before (atEnd_of_statements hss he).2
    have before₁ : ¬AtEnd _ := fun he => before₂ (atEnd_of_terminators hx he)
    have first := hs.current_of_ne ht fun he => hk (.inr he)
    obtain ⟨_, ha', follows⟩ := iha rfl (absurd · before₁) hs nofun
    obtain ⟨_, hx', passed⟩ := follows.terminators hb hbrace hx
    obtain ⟨_, hss', hs⟩ := ihss rfl whole (passed.continued before₂) nofun
    exact ⟨_, .statements first hk ha' hx' hss', hs⟩
  | block ht hk _ ih =>
    obtain ⟨_, hb', hs'⟩ := ih rfl whole hs nofun
    exact ⟨_, .block (hs.current_of_kind ht hk nofun) hk hb', .inl hs'.continued⟩
  | byName ht hk _ ih =>
    have ident : ∀ x, current? _ = some x → x.kind = .ident := fun x hx => by
      cases ht.symm.trans hx
      exact hk
    obtain ⟨_, ha', hs'⟩ := ih rfl whole hs fun _ => ident
    exact ⟨_, .byName (hs.current_of_kind ht hk nofun) hk ha', hs'⟩
  | byValue ht hk hn _ hl ih =>
    have first := hs.current_of_ne ht fun he => absurd (he ▸ hk) (by decide)
    obtain ⟨_, _, he', hl', follows⟩ := hl.line hb (fun he => (Node.whole_iff.1 (whole he)).2)
      (ih rfl · hs nofun)
    exact ⟨_, .byValue first hk hn he' hl', follows⟩
  | byCondition ht hk _ ih =>
    obtain ⟨_, hb', hs'⟩ := ih rfl whole hs nofun
    exact ⟨_, .byCondition (hs.current_of_kind ht hk nofun) hk hb', hs'⟩
  | byReturn ht hk _ ih =>
    obtain ⟨_, ha', hs'⟩ := ih rfl whole hs nofun
    exact ⟨_, .byReturn (hs.current_of_kind ht hk nofun) hk ha', hs'⟩
  | byFunction ht hk _ ih =>
    obtain ⟨_, hf', hs'⟩ := ih rfl (fun he => (Node.whole_iff.1 (whole he)).2) hs nofun
    exact ⟨_, .byFunction (hs.current_of_kind ht hk nofun) hk hf', .inl hs'.continued⟩
  | empty hk hc => exact hs.single (.empty hk) hc nofun
  | assign hf hu hn hc _ hl ih =>
    obtain ⟨_, hf', rfl | ⟨he, -⟩⟩ := hs.foresees (hn.not_atEnd nofun) hf hb
    · obtain ⟨_, hn', hs⟩ := hs.consumes hn nofun
      obtain ⟨_, hc', hs⟩ := hs.consumes hc nofun
      obtain ⟨_, _, he', hl', follows⟩ := hl.line hb (fun he => (Node.whole_iff.1 (whole he)).2)
        (ih rfl · hs nofun)
      exact ⟨_, .assign hf' hu hn' hc' he' hl', follows⟩
    · cases hu.symm.trans he
  | expr ht hf hu _ hl ih =>
    have first : _ ≠ Kind.eof := fun he => nomatch (ready rfl _ ht).symm.trans he
    obtain ⟨_, hf', after⟩ := hs.foresees (not_atEnd_of_current ht first) hf hb
    obtain ⟨_, _, he', hl', follows⟩ := hl.line hb (fun he => (Node.whole_iff.1 (whole he)).2)
      (ih rfl · hs nofun)
    refine ⟨_, .expr (hs.current_of_ne ht first) hf' ?_ he' hl', follows⟩
    rcases after with rfl | ⟨-, hk⟩
    · exact hu
    · rw [hk]
      nofun
  | retNone hc hu hk hl =>
    obtain ⟨_, hc', hs⟩ := hs.consumes hc nofun
    obtain ⟨_, hl', follows⟩ := hs.terminates hb hl
    obtain ⟨_, hu', rfl | ⟨-, hk'⟩⟩ := hs.exists_current hb hu
    · exact ⟨_, .retNone hc' hu' hk hl', follows⟩
    · exact ⟨_, .retNone hc' hu' (.inl hk') hl', follows⟩
  | ret hc hu hk _ hl ih =>
    obtain ⟨_, hc', hs⟩ := hs.consumes hc nofun
    have first := hs.current_of_ne hu fun he => hk (.inr (.inr he))
    obtain ⟨_, _, he', hl', follows⟩ := hl.line hb (fun he => (Node.whole_iff.1 (whole he)).2)
      (ih rfl · hs nofun)
    exact ⟨_, .ret hc' first hk he' hl', follows⟩
  | branchElse hc _ hx hcs hk he _ ihc _ ihcs iha =>
    have before₄ := he.not_atEnd nofun
    have before₂ : ¬AtEnd _ := fun he =>
      before₄ (atEnd_of_clauses hcs (atEnd_of_terminators hx he)).2
    obtain ⟨_, hc', hs⟩ := hs.consumes hc nofun
    obtain ⟨_, first, follows⟩ := ihc rfl (absurd · before₂) hs nofun
    obtain ⟨_, _, hx', hcs', follows⟩ := follows.clauses hb hbrace hx hcs
      (ihcs rfl (absurd · before₄) · nofun)
    obtain ⟨_, he', hs⟩ := (follows.continued_of_not_atEnd before₄).consumes he nofun
    obtain ⟨_, ha', follows⟩ := iha rfl (fun he => (whole he).child
      (List.mem_cons_of_mem _ (List.mem_append_right _ (List.mem_singleton_self _)))) hs nofun
    exact ⟨_, .branchElse hc' first hx' hcs' hk he' ha', follows⟩
  | branch hc _ hx hcs ht hk ihc _ ihcs =>
    have stuck : AtEnd _ → AtEnd _ := fun he =>
      (atEnd_of_clauses hcs (atEnd_of_terminators hx he)).2
    obtain ⟨_, hc', hs⟩ := hs.consumes hc nofun
    obtain ⟨_, first, follows⟩ := ihc rfl
      (fun he => (whole (stuck he)).child List.mem_cons_self) hs nofun
    have others := fun he => List.forall_iff_forall_mem.2 fun _ hm =>
      (whole he).child (List.mem_cons_of_mem _ (List.mem_append_left _ hm))
    obtain ⟨_, _, hx', hcs', follows⟩ := follows.clauses hb hbrace hx hcs (ihcs rfl others · nofun)
    obtain ⟨_, ht', hk'⟩ := follows.exists_current_ne hb hbrace (by decide) (by decide) ht hk
    exact ⟨_, .branch hc' first hx' hcs' ht' hk', follows⟩
  | noClauses ht hk =>
    obtain ⟨_, ht', hk'⟩ := hs.exists_current_ne hb (by decide) ht hk
    exact ⟨_, .noClauses ht' hk', .inl hs⟩
  | clauses hk hc _ hx hcs ihc _ ihcs =>
    have stuck : AtEnd _ → AtEnd _ := fun he =>
      (atEnd_of_clauses hcs (atEnd_of_terminators hx he)).2
    obtain ⟨_, hc', hs⟩ := hs.consumes hc nofun
    obtain ⟨_, first, follows⟩ := ihc rfl
      (fun he => ((List.forall_cons ..).1 (whole (stuck he))).1) hs nofun
    obtain ⟨_, _, hx', hcs', follows⟩ := follows.clauses hb hbrace hx hcs
      (ihcs rfl (fun he => ((List.forall_cons ..).1 (whole he)).2) · nofun)
    exact ⟨_, .clauses hk hc' first hx' hcs', follows⟩
  | clause _ ha ihe iha =>
    have before := not_atEnd_of_statement ha
    obtain ⟨_, he', hs⟩ := ihe rfl (absurd · before) hs nofun
    obtain ⟨_, ha', follows⟩ := iha rfl (fun he => (Node.whole_iff.1 (whole he)).2.2)
      hs.continued nofun
    exact ⟨_, .clause he' ha', follows⟩
  | sum _ ht ihl iht =>
    exact Continued.chain .sum (ht.finished ·) whole (ihl rfl · hs nofun) (iht rfl whole · nofun)
  | sumEnd ht hk => exact hs.chainEnd hb .sumEnd (by decide) ht hk
  | sumTail hk hc _ ht ihr iht =>
    exact hs.chainTail (.sumTail hk) hc nofun (ht.finished ·) whole (ihr rfl · · nofun)
      (iht rfl whole · nofun)
  | product _ ht ihl iht =>
    exact Continued.chain .product (ht.finished ·) whole (ihl rfl · hs nofun)
      (iht rfl whole · nofun)
  | productEnd ht hk => exact hs.chainEnd hb .productEnd (by decide) ht hk
  | productTail hk hc _ ht ihr iht =>
    exact hs.chainTail (.productTail hk) hc nofun (ht.finished ·) whole (ihr rfl · · nofun)
      (iht rfl whole · nofun)
  | base _ ht hk ih =>
    obtain ⟨_, hf', hs⟩ := ih rfl whole hs nofun
    obtain ⟨_, ht', hk'⟩ := hs.continued.exists_current_ne hb (by decide) ht hk
    exact ⟨_, .base hf' ht' hk', hs⟩
  | power _ ht hk _ ihl ihr =>
    have before := not_atEnd_of_current ht (by rw [hk]; nofun)
    obtain ⟨_, hl', hs⟩ := ihl rfl (absurd · before) hs nofun
    have sign := (hs.continued.current before).trans ht
    obtain ⟨_, hr', hs⟩ := ihr rfl (fun he => (Node.whole_iff.1 (whole he)).2.2) hs.continued nofun
    exact ⟨_, .power hl' sign hk hr', hs⟩
  | number hk hc => exact hs.single (.number hk) hc nofun
  | string hk hc => exact hs.single (.string hk) hc nofun
  | bool hk hc => exact hs.single (.bool hk) hc nofun
  | name ht hk _ ih =>
    have ident : ∀ x, current? _ = some x → x.kind = .ident := fun x hx => by
      cases ht.symm.trans hx
      exact hk
    obtain ⟨_, he', hs'⟩ := ih rfl whole hs fun _ => ident
    exact ⟨_, .name (hs.current_of_kind ht hk nofun) hk he', hs'⟩
  | group hk ho _ hc ih =>
    have before := hc.not_atEnd nofun
    exact hs.enclosed (.group hk) ho nofun (ih rfl (absurd · before) · nofun) hc nofun
  | exponent hk hc _ ih => exact hs.preceded (.exponent hk) hc nofun (ih rfl whole · nofun)
  | sign hk hc _ ih =>
    have sign : _ ≠ Kind.eof := fun he => by rcases hk with hk | hk <;> cases hk.symm.trans he
    have operand := fun he => (Node.whole_iff.1 (whole he)).2
    exact hs.preceded (.sign hk) hc sign (ih rfl operand · nofun)
  | missing ht hk => cases (Node.whole_iff.1 (whole ⟨_, ht, hk⟩)).1
  | byCall hf hu _ ih =>
    obtain ⟨_, hf', rfl | ⟨he, -⟩⟩ := hs.foresees
      (fun ⟨x, hx, he⟩ => nomatch (ready rfl x hx).symm.trans he) hf hb
    · obtain ⟨_, hc', hs⟩ := ih rfl (fun he => (Node.whole_iff.1 (whole he)).2) hs nofun
      exact ⟨_, .byCall hf' hu hc', hs⟩
    · cases hu.symm.trans he
  | symbol hf hu hc =>
    obtain ⟨_, hf', after⟩ := hs.foresees (hc.not_atEnd nofun) hf hb
    obtain ⟨_, hc', hs⟩ := hs.consumes hc nofun
    refine ⟨_, .symbol hf' ?_ hc', .inl hs⟩
    rcases after with rfl | ⟨-, hk⟩
    · exact hu
    · rw [hk]
      nofun
  | call hc ht ha ih =>
    obtain ⟨_, hc', hs⟩ := hs.consumes hc nofun
    obtain ⟨_, ha', hs'⟩ := ih rfl (fun he => (Node.whole_iff.1 (whole he)).2) hs nofun
    exact ⟨_, .call hc' ((hs.current (not_atEnd_of_args ha)).trans ht) ha', hs'⟩
  | args ho _ hc ih =>
    have before := hc.not_atEnd nofun
    exact hs.enclosed .args ho nofun (ih rfl (absurd · before) · nofun) hc nofun
  | noItems ht hk => exact ⟨_, .noItems (hs.current_of_kind ht hk nofun) hk, .inl hs⟩
  | lastItem ht hk _ hu hk' ih =>
    obtain ⟨_, ht', first⟩ := hs.exists_current_ne hb (by decide) ht hk
    obtain ⟨_, he', hs⟩ := ih rfl whole hs nofun
    obtain ⟨_, hu', hl⟩ := hs.continued.exists_current_ne hb (by decide) hu hk'
    exact ⟨_, .lastItem ht' first he' hu' hl, hs⟩
  | items ht hk _ hk' hc hsep _ ihe ihes =>
    obtain ⟨_, ht', first⟩ := hs.exists_current_ne hb (by decide) ht hk
    obtain ⟨_, he', hs⟩ := ihe rfl (fun he => absurd he (hc.not_atEnd nofun)) hs nofun
    obtain ⟨_, hc', hs⟩ := hs.continued.consumes hc nofun
    obtain ⟨_, hes', hs'⟩ := ihes rfl (fun he => ((List.forall_cons ..).1 (whole he)).2) hs nofun
    exact ⟨_, .items ht' first he' hk' hc' (hs.separates hsep (by decide)) hes', hs'⟩
  | disjunction _ ht ihl iht =>
    exact Continued.chain .disjunction (ht.finished ·) whole (ihl rfl · hs nofun)
      (iht rfl whole · nofun)
  | disjunctionEnd ht hk => exact hs.chainEnd hb .disjunctionEnd (by decide) ht hk
  | disjunctionTail hk hc _ ht ihr iht =>
    exact hs.chainTail (.disjunctionTail hk) hc nofun (ht.finished ·) whole (ihr rfl · · nofun)
      (iht rfl whole · nofun)
  | conjunction _ ht ihl iht =>
    exact Continued.chain .conjunction (ht.finished ·) whole (ihl rfl · hs nofun)
      (iht rfl whole · nofun)
  | conjunctionEnd ht hk => exact hs.chainEnd hb .conjunctionEnd (by decide) ht hk
  | conjunctionTail hk hc _ ht ihr iht =>
    exact hs.chainTail (.conjunctionTail hk) hc nofun (ht.finished ·) whole (ihr rfl · · nofun)
      (iht rfl whole · nofun)
  | negation hk hc _ ih =>
    have operand := fun he => (Node.whole_iff.1 (whole he)).2
    exact hs.preceded (.negation hk) hc nofun (ih rfl operand · nofun)
  | positive ht hk _ ih =>
    obtain ⟨_, ht', first⟩ := hs.exists_current_ne hb (by decide) ht hk
    obtain ⟨_, he', hs⟩ := ih rfl whole hs nofun
    exact ⟨_, .positive ht' first he', hs⟩
  | comparison _ ht ihl iht =>
    exact Continued.chain .comparison (ht.finished ·) whole (ihl rfl · hs nofun)
      (iht rfl whole · nofun)
  | comparisonEnd ht hk => exact hs.chainEnd hb .comparisonEnd (by decide) ht hk
  | comparisonTail hk hc _ ht ihr iht =>
    exact hs.chainTail (.comparisonTail hk) hc nofun (ht.finished ·) whole (ihr rfl · · nofun)
      (iht rfl whole · nofun)
  | truth hk hc => exact hs.single (.truth hk) hc nofun
  | opposite hk hc _ ih =>
    have operand := fun he => (Node.whole_iff.1 (whole he)).2
    exact hs.preceded (.opposite hk) hc nofun (ih rfl operand · nofun)
  | condition hk ho _ hc ih =>
    have before := hc.not_atEnd nofun
    exact hs.enclosed (.condition hk) ho nofun (ih rfl (absurd · before) · nofun) hc nofun
  | value ht hk hn hp _ ih =>
    have first := hs.current_of_ne ht fun he => absurd (he ▸ hk) (by decide)
    obtain ⟨_, he', hs⟩ := ih rfl whole hs nofun
    exact ⟨_, .value first hk hn hp he', hs⟩

end

end

end Quill
