import Quill.Proofs.Indifference
import Quill.Proofs.Joining
import Quill.Proofs.MissingOperand

/-!
# Programs one after the other

Two programs joined by a line feed are a program, whose functions are those of the first one
followed by those of the second one (`parse_join`).

Where the first program had the end of the input, the tokens of the whole go on with a terminator
and further ones (`Continued`). What the rules read before their last token is not changed by that
(`Rule.Derives.alike`), and a function ends with its closing brace, so it does not see the end at
all (`Rule.Derives.function_append`). The end is seen between functions only: there the first parse
has no more to read, while the parse of the whole skips the terminator with those that begin the
second program, and goes on with its functions.
-/

namespace Quill

open TokenReader LawfulReader

/-! ## What is read of a tape -/

section
variable {c : Category} {rule : Rule c} {a : c.Tree} {kind : Kind} {x : Token} {s s₁ : Tape}

/-- A rule leaves the last tokens of its tape. -/
theorem Rule.Derives.suffix (h : rule.Derives s a s₁) : s₁.tokens <:+ s.tokens := by
  obtain ⟨n, hn⟩ := h.parses
  have leaves := rule.left_suffix n s
  rw [hn] at leaves
  exact leaves

/-- Consuming a token leaves the last tokens of the tape. -/
theorem Consumes.suffix (h : Consumes kind s x s₁) : s₁.tokens <:+ s.tokens := by
  obtain ⟨-, -, u, ha⟩ := h
  rcases Tape.advance_eq_ok ha with ⟨-, rfl⟩ | ⟨v, ts, h₁, h₂⟩
  · exact List.suffix_refl _
  · rw [h₁, h₂]
    exact List.suffix_cons _ _

/-- Before the end of the input a token is consumed in front of another one. -/
theorem Consumes.exists_cons (h : Consumes kind s x s₁) (hs : s.Ended) (hk : kind ≠ .eof) :
    s.tokens = x :: s₁.tokens ∧ s₁.tokens ≠ [] := by
  obtain ⟨current, has, u, ha⟩ := h
  rcases Tape.advance_eq_ok ha with ⟨h₁, rfl⟩ | ⟨v, ts, h₁, h₂⟩
  · obtain ⟨e, he, eof⟩ := hs
    rw [h₁] at he
    cases he
    rw [show current? s₁ = s₁.tokens.head? from rfl, h₁] at current
    cases current
    exact absurd (Token.eq_eof_of_hasKind eof has) hk
  · rw [show current? s = s.tokens.head? from rfl, h₁] at current
    cases current
    rw [h₁, h₂]
    exact ⟨rfl, List.cons_ne_nil _ _⟩

end

/-! ## Tapes that begin alike -/

section
variable {t x : Token} {rest rest' : List Token} {s s' s₁ : Tape}

/-- What a list begins with is said by its part up to some element. -/
theorem head?_append_cons (us : List Token) (t : Token) (rest : List Token) :
    (us ++ t :: rest).head? = (us ++ [t]).head? := by
  cases us <;> rfl

/-- What is derived up to a token that the tapes share is derived from the other tape too. -/
theorem Rule.Derives.alike {c : Category} {rule : Rule c} {a : c.Tree} (hne : rest ≠ [])
    (h : rule.Derives s a s₁) (hs : Alike t rest rest' s s') (left : t :: rest <:+ s₁.tokens)
    (ready : rule.looksAhead = true → ∀ x, current? s = some x → x.kind = .ident) :
    ∃ s₁', rule.Derives s' a s₁' ∧ Alike t rest rest' s₁ s₁' := by
  obtain ⟨n, hn⟩ := h.parses
  obtain ⟨ts⟩ := s
  obtain ⟨ts'⟩ := s'
  obtain ⟨us, rfl, rfl⟩ := hs
  obtain ⟨x, hx⟩ := exists_first us t
  have settled : Settled (rule.run n (Tape.mk (us ++ t :: rest))) := by
    intro s₂ he
    cases hn.symm.trans he
  have ready : rule.looksAhead = true → x.kind = .ident :=
    fun hl => ready hl x ((head?_append_cons us t rest).trans hx)
  have related : Related (Alike t rest rest') (rule.run n (Tape.mk (us ++ t :: rest))) _ :=
    (rule.reads_or_related hne hx ready settled).resolve_left fun beyond => by
      rw [hn] at beyond
      have le := (left.trans beyond).length_le
      rw [List.length_cons] at le
      omega
  rw [hn] at related
  cases hc : rule.run n (Tape.mk (us ++ t :: rest')) with
  | error e s₂ =>
    rw [hc] at related
    exact related.elim
  | ok b s₂ =>
    rw [hc] at related
    obtain ⟨rfl, alike⟩ := related
    exact ⟨s₂, Rule.parses_iff_derives.1 ⟨n, hc⟩, alike⟩

/-- A token before the one that the tapes share is consumed on both. -/
theorem Consumes.alike {kind : Kind} (hne : rest ≠ []) (h : Consumes kind s x s₁)
    (hs : Alike t rest rest' s s') (left : t :: rest <:+ s₁.tokens) :
    ∃ s₁', Consumes kind s' x s₁' ∧ Alike t rest rest' s₁ s₁' := by
  obtain ⟨current, has, u, ha⟩ := h
  obtain ⟨us, tokens, tokens'⟩ := hs
  obtain ⟨ts'⟩ := s'
  obtain rfl : ts' = us ++ t :: rest' := tokens'
  rcases Tape.advance_eq_ok ha with ⟨single, -⟩ | ⟨v, ts, h₁, h₂⟩
  · have length := congrArg List.length (tokens.symm.trans single)
    have some_left := List.length_pos_iff.2 hne
    simp only [List.length_append, List.length_cons, List.length_nil] at length
    omega
  · rw [show current? s = s.tokens.head? from rfl, tokens] at current
    rw [h₂] at left
    cases us with
    | nil =>
      cases h₁.symm.trans tokens
      have le := left.length_le
      rw [List.length_cons] at le
      omega
    | cons y us =>
      cases current
      have tail : u :: ts = us ++ t :: rest := (List.cons.inj (h₁.symm.trans tokens)).2
      exact ⟨_, Tape.consumes (by simp) has, us, by rw [h₂, tail], rfl⟩

/-- The last tokens of a tape that ends are a tape that ends. -/
theorem Tape.Ended.of_suffix (h : s.Ended) (hs : s₁.tokens <:+ s.tokens)
    (hx : current? s₁ = some x) : s₁.Ended := by
  obtain ⟨e, he, eof⟩ := h
  obtain ⟨us, split⟩ := hs
  obtain ⟨ts, tokens⟩ := List.head?_eq_some_iff.1 hx
  refine ⟨e, ?_, eof⟩
  rw [← split, List.getLast?_append_of_ne_nil _ (by rw [tokens]; exact List.cons_ne_nil _ _)] at he
  exact he

/-- A function ends with its closing brace, and is the same whatever comes after the brace. -/
theorem Rule.Derives.function_append {f : Function} (h : Rule.function.Derives s f s₁)
    (hs : s.Ended) : ∃ us, s.tokens = us ++ s₁.tokens ∧ s₁.tokens ≠ [] ∧
      ∀ rest, rest ≠ [] → Rule.function.Derives (Tape.mk (us ++ rest)) f ⟨rest⟩ := by
  cases h with
  | @function _ _ a₁ _ a₂ _ a₃ _ _ hf hn hp hb =>
  cases hb with
  | @scope _ _ b₁ b₂ _ b₃ t _ ho hx hss hc =>
  -- The brace stands in all that is read before it.
  have inBody : b₃.tokens <:+ a₃.tokens := hss.suffix.trans (hx.suffix.trans ho.suffix)
  have inText : a₃.tokens <:+ s.tokens := hp.suffix.trans (hn.suffix.trans hf.suffix)
  have ended : b₃.Ended := hs.of_suffix (inBody.trans inText) hc.current
  obtain ⟨brace, nonempty⟩ := hc.exists_cons ended nofun
  have left : t :: s₁.tokens <:+ b₃.tokens := brace ▸ List.suffix_refl _
  have left₂ := left.trans hss.suffix
  have left₁ := left₂.trans hx.suffix
  have left₀ := left₁.trans ho.suffix
  obtain ⟨us, tokens⟩ := left₀.trans inText
  refine ⟨us ++ [t], ?_, nonempty, fun rest hne => ?_⟩
  · rw [← tokens, List.append_assoc]
    rfl
  have alike : Alike t s₁.tokens rest s ⟨us ++ t :: rest⟩ := ⟨us, tokens.symm, rfl⟩
  obtain ⟨a₁', hf', alike⟩ := hf.alike nonempty alike
    (left₀.trans (hp.suffix.trans hn.suffix))
  obtain ⟨a₂', hn', alike⟩ := hn.alike nonempty alike (left₀.trans hp.suffix)
  obtain ⟨a₃', hp', alike⟩ := hp.alike nonempty alike left₀ nofun
  obtain ⟨b₁', ho', alike⟩ := ho.alike nonempty alike left₁
  obtain ⟨b₂', hx', alike⟩ := hx.alike nonempty alike left₂ nofun
  obtain ⟨b₃', hss', vs, same, tokens'⟩ := hss.alike nonempty alike left nofun
  cases List.self_eq_append_left.1 (brace.symm.trans same)
  obtain ⟨ts'⟩ := b₃'
  obtain rfl : ts' = t :: rest := tokens'
  rw [List.append_assoc]
  exact .function hf' hn' hp' (.scope ho' hx' hss' (Tape.consumes hne hc.2.1))

end

/-! ## Where the first text ends -/

/-- The second list goes on with `b` and further tokens where the first one ends. -/
inductive Continued (b : Token) (rest : List Token) : List Token → List Token → Prop
  | ended {e : Token} : e.kind = .eof → Continued b rest [e] (b :: rest)
  | token {t : Token} {ts ts' : List Token} : t.kind ≠ .eof → Continued b rest ts ts' →
      Continued b rest (t :: ts) (t :: ts')

section
variable {b e t : Token} {rest us ts ts' : List Token} {s s₁ s' r : Tape}

/-- An input is continued with a token and the rest in place of its end. -/
theorem Continued.of_input (h : Input (us ++ [e])) :
    Continued b rest (us ++ [e]) (us ++ b :: rest) := by
  induction us with
  | nil => exact .ended (h.eof_iff.2 rfl)
  | cons u us ih =>
    obtain ⟨lexical, last⟩ := h.split
    obtain ⟨hu, lexical⟩ := List.forall_mem_cons.1 lexical
    refine .token (fun he => ?_) (ih (last.append lexical))
    rw [he] at hu
    cases hu

/-- An input has a last token. -/
theorem Input.exists_append (h : Input ts) : ∃ us e, ts = us ++ [e] := by
  obtain ⟨e, he, -⟩ := h.ended_tape
  exact ⟨_, e, (List.dropLast_append_getLast? e he).symm⟩

/-- An input whose end gives way to a terminator and another input is an input. -/
theorem Input.join (h : Input (us ++ [e])) (hb : b.kind = .op .lineEnd) (hr : Input rest) :
    Input (us ++ b :: rest) :=
  (Input.token (by rw [hb]; rfl) hr).append h.split.1

/-- The tape that is continued ends with the end of the input. -/
theorem Continued.ended_tape (h : Continued b rest ts ts') : (Tape.mk ts).Ended := by
  induction h with
  | ended he => exact ⟨_, rfl, he⟩
  | @token t ts ts' _ _ ih =>
    obtain ⟨e, he, eof⟩ := ih
    refine ⟨e, ?_, eof⟩
    show (t :: ts).getLast? = some e
    rw [List.getLast?_cons, show ts.getLast? = some e from he]
    rfl

/-- Lists that go on in this way share what stands before any of their tokens. -/
theorem Continued.split (h : Continued b rest (us ++ ts) ts') (hne : ts ≠ []) :
    ∃ vs, ts' = us ++ vs ∧ Continued b rest ts vs := by
  induction us generalizing ts' with
  | nil => exact ⟨ts', rfl, h⟩
  | cons u us ih =>
    rw [List.cons_append] at h
    generalize joined : us ++ ts = ws at h
    cases h with
    | ended => exact absurd (List.append_eq_nil_iff.1 joined).2 hne
    | token _ h =>
      obtain ⟨vs, rfl, after⟩ := ih (joined ▸ h)
      exact ⟨vs, rfl, after⟩

/-- At the end of the first list the second one goes on. -/
theorem Continued.eq_of_atEnd (h : Continued b rest s.tokens s'.tokens) (hs : AtEnd s) :
    s' = ⟨b :: rest⟩ := by
  obtain ⟨ts⟩ := s
  obtain ⟨ts'⟩ := s'
  obtain ⟨t, ht, eof⟩ := hs
  cases h with
  | ended => rfl
  | token hk =>
    cases ht
    exact absurd eof hk

/-- Before the end the same token is current. -/
theorem Continued.current (h : Continued b rest s.tokens s'.tokens) (hs : ¬AtEnd s) :
    current? s' = current? s := by
  obtain ⟨ts⟩ := s
  obtain ⟨ts'⟩ := s'
  cases h with
  | ended he => exact absurd ⟨_, rfl, he⟩ hs
  | token => rfl

/-- The tape that continues another one is not empty. -/
theorem Continued.nonempty (h : Continued b rest ts ts') : ts' ≠ [] := by
  rintro rfl
  cases h

/-- A token that is not the end is consumed from either tape. -/
theorem Continued.consumes {kind : Kind} (h : Continued b rest s.tokens s'.tokens)
    (hc : Consumes kind s t s₁) (hk : kind ≠ .eof) :
    ∃ s₁', Consumes kind s' t s₁' ∧ Continued b rest s₁.tokens s₁'.tokens := by
  obtain ⟨tokens, nonempty⟩ := hc.exists_cons h.ended_tape hk
  rw [tokens, ← List.singleton_append] at h
  obtain ⟨vs, tokens', after⟩ := h.split nonempty
  obtain ⟨ts'⟩ := s'
  obtain rfl : ts' = t :: vs := tokens'
  exact ⟨⟨vs⟩, Tape.consumes after.nonempty hc.2.1, after⟩

/-! ## Programs -/

variable (b rest r)

/-- The first tape has not ended and the second one goes on with `b` where it ends, or the first one
has ended and the second one stands at `r`. -/
def Tape.Passed (s s' : Tape) : Prop :=
  ¬AtEnd s ∧ Continued b rest s.tokens s'.tokens ∨ AtEnd s ∧ s' = r

variable {b rest r}

/-- Terminators are skipped up to the end of the first tape, and then those that follow on the
second one. -/
theorem Continued.terminators (h : Continued b rest ts ts') (hb : b.kind = .op .lineEnd)
    (hne : rest ≠ []) (hr : Rule.terminators.Derives (Tape.mk rest) () r)
    (hx : Rule.terminators.Derives (Tape.mk ts) () s₁) :
    ∃ s₁', Rule.terminators.Derives (Tape.mk ts') () s₁' ∧ Tape.Passed b rest r s₁ s₁' := by
  induction h with
  | ended he =>
    cases hx with
    | noTerminators =>
      exact ⟨r, .terminators hb (Tape.consumes_of_kind hne hb) hr, .inr ⟨⟨_, rfl, he⟩, rfl⟩⟩
    | terminators hk hc =>
      cases hc.current
      cases hk.symm.trans he
  | @token t ts ts' hk h ih =>
    have before : ¬AtEnd (Tape.mk (t :: ts)) := not_atEnd_of_current rfl hk
    cases hx with
    | noTerminators ht hl =>
      cases ht
      exact ⟨_, .noTerminators rfl hl, .inl ⟨before, .token hk h⟩⟩
    | terminators hl hc hx =>
      cases hc.current
      obtain ⟨tokens, -⟩ := hc.exists_cons (Continued.token hk h).ended_tape nofun
      obtain rfl := (List.cons.inj tokens).2
      obtain ⟨s₁', hx', passed⟩ := ih hx
      exact ⟨s₁', .terminators hl (Tape.consumes_of_kind h.nonempty hl) hx', passed⟩

/-- Where the functions of the first tape end those of the second one follow. -/
theorem Tape.Passed.functions {fs gs : List Function} {s₂ : Tape} (h : Tape.Passed b rest r s s')
    (hb : b.kind = .op .lineEnd) (hne : rest ≠ [])
    (hr : Rule.terminators.Derives (Tape.mk rest) () r) (hg : Rule.functions.Derives r gs s₂)
    (hf : Rule.functions.Derives s fs s₁) : Rule.functions.Derives s' (fs ++ gs) s₂ := by
  induction fs generalizing s s' with
  | nil =>
    cases hf with
    | noFunctions ht hk =>
      rcases h with ⟨before, -⟩ | ⟨-, rfl⟩
      · exact absurd ⟨_, ht, hk⟩ before
      · exact hg
  | cons f fs ih =>
    cases hf with
    | @functions _ t _ a₁ a₂ _ _ ht hk hf hx hfs =>
      rcases h with ⟨before, h⟩ | ⟨ended, -⟩
      · obtain ⟨us, tokens, nonempty, append⟩ := hf.function_append h.ended_tape
        obtain ⟨vs, tokens', after⟩ := Continued.split (tokens ▸ h) nonempty
        obtain ⟨a₂', hx', passed⟩ := after.terminators hb hne hr hx
        obtain ⟨ts'⟩ := s'
        obtain rfl : ts' = us ++ vs := tokens'
        have first := h.current before
        exact .functions (first.trans ht) hk (append vs after.nonempty) hx' (ih passed hfs)
      · exact absurd ended (not_atEnd_of_current ht hk)

/-- A program is derived from its functions after the terminators before them. -/
theorem Rule.Derives.exists_functions {p : Program} (h : Rule.program.Derives s p s₁) :
    ∃ s₂ f fs, p.functions = f :: fs ∧ Rule.terminators.Derives s () s₂ ∧
      Rule.functions.Derives s₂ p.functions s₁ := by
  cases h with
  | @program _ s₂ t f _ _ fs _ hx ht hf hx' hfs =>
    have first : t.kind ≠ .eof := by
      cases hf with
      | function hc =>
        cases ht.symm.trans hc.current
        exact fun eof => hc.not_atEnd nofun ⟨t, ht, eof⟩
    exact ⟨s₂, f, fs, rfl, hx, .functions ht first hf hx' hfs⟩

/-- Functions after terminators are a program, if there is any. -/
theorem Rule.Derives.exists_program {f : Function} {fs : List Function} {s₂ : Tape}
    (hx : Rule.terminators.Derives s () s₂) (hf : Rule.functions.Derives s₂ (f :: fs) s₁) :
    ∃ pos, Rule.program.Derives s ⟨f :: fs, pos⟩ s₁ := by
  cases hf with
  | functions ht hk hf hx' hfs => exact ⟨_, .program hx ht hf hx' hfs⟩

end

/-- The lists of two programs, joined by a terminator in place of the end of the first one, are
parsed as a program with the functions of both. -/
theorem parseTokens_join {us vs : List Token} {b e : Token} {p q : Program}
    (hu : Input (us ++ [e])) (hv : Input vs) (hb : b.kind = .op .lineEnd)
    (hp : parseTokens .program (us ++ [e]) = .ok (.program p))
    (hq : parseTokens .program vs = .ok (.program q)) :
    ∃ pos, parseTokens .program (us ++ b :: vs) =
      .ok (.program ⟨p.functions ++ q.functions, pos⟩) := by
  have joined : Continued b vs (us ++ [e]) (us ++ b :: vs) := .of_input hu
  have nonempty : vs ≠ [] := by
    rintro rfl
    cases hv
  rw [parseTokens_eq_ok_iff hu.ended_tape] at hp
  rw [parseTokens_eq_ok_iff hv.ended_tape] at hq
  obtain ⟨s, hp⟩ := hp
  obtain ⟨s', hq⟩ := hq
  cases hp with
  | wholeProgram hp =>
  cases hq with
  | wholeProgram hq =>
  obtain ⟨s₁, f, fs, first, hx, hf⟩ := hp.exists_functions
  obtain ⟨r, -, -, -, hr, hg⟩ := hq.exists_functions
  obtain ⟨s₁', hx', passed⟩ := joined.terminators hb nonempty hr hx
  have functions := passed.functions hb nonempty hr hg hf
  rw [first, List.cons_append] at functions ⊢
  obtain ⟨pos, program⟩ := Rule.Derives.exists_program hx' functions
  refine ⟨pos, ?_⟩
  rw [parseTokens_eq_ok_iff (hu.join hb hv).ended_tape]
  exact ⟨s', .wholeProgram program⟩

/-! ## Texts -/

section
variable {keywords : KeywordTable} {r : Radix}

/-- A token that is read is like itself, since no numeral denotes what differs from itself. -/
theorem Lexer.like_of_advance {l l' : Lexer} {t : Token} (h : advance l = .ok t l') : t.Like t := by
  obtain ⟨scan, -⟩ := advance_eq_ok h
  have like : l.nextScan.Like l.nextScan := Scan.like_token ..
  generalize l.nextScan = x at scan like
  cases like with
  | ok like =>
    cases scan
    exact like
  | error => cases scan

/-- Every token of a text is like itself. -/
theorem like_of_tokenize {source : String} {ts : List Token}
    (h : tokenize keywords r source = .ok ts) : ∀ t ∈ ts, t.Like t := by
  rw [tokenize_eq, outcome_eq_ok_iff] at h
  obtain ⟨l, h⟩ := h
  refine Lexer.tokensFrom_induction (motive := fun _ ts => ∀ t ∈ ts, t.Like t) ?_ ?_ h
  · intro l l' t ha _
    simpa using Lexer.like_of_advance ha
  · intro l l₁ t ts ha _ ih
    exact List.forall_mem_cons.2 ⟨Lexer.like_of_advance ha, ih⟩

/-- A text after a line feed begins so many characters and lines further on. -/
theorem Location.next_advance_start (text : List Char) :
    (Location.start.advance text).next '\n' =
      Location.start.move (text.length + 1) (text.count '\n' + 1) := by
  rw [Location.next, if_pos rfl, Location.offset_advance, Location.line_advance]
  simp only [Location.move, Location.start, Location.mk.injEq, and_true]
  omega

/-- The tokens of two texts joined by a line feed are like those of the first one up to the end of
the input, a terminator, and those of the second one. -/
theorem exists_tokenize_join {s₁ s₂ : String} {ts us vs ws : List Token} {b e : Token}
    (hk : keywords.NoEnd) (ht : tokenize keywords r s₁ = .ok ts)
    (hu : tokenize keywords r s₂ = .ok us) (first : List.Forall₂ Token.Like ts (vs ++ [e]))
    (second : List.Forall₂ Token.Like us ws) (hb : b.kind = .op .lineEnd) :
    ∃ ts', tokenize keywords r (s₁ ++ "\n" ++ s₂) = .ok ts' ∧
      List.Forall₂ Token.Like ts' (vs ++ b :: ws) := by
  rw [tokenize_eq] at ht hu
  obtain ⟨_, read⟩ := outcome_eq_ok_iff.1 ht
  have text : (s₁ ++ "\n" ++ s₂).toList = s₁.toList ++ '\n' :: s₂.toList := by simp
  have outruns : (Lexer.ofSource keywords r s₁).Outruns (Location.start.advance s₁.toList)
      s₂.toList (Lexer.ofSource keywords r (s₁ ++ "\n" ++ s₂)) :=
    ⟨rfl, rfl, rfl, rfl, text, rfl⟩
  obtain ⟨before, last, m, rfl, -, past, out⟩ := outruns.tokensFrom hk read
  -- Neither the beginning of a text nor a line feed ends an operand, so the signs stay the same.
  have moved : (Lexer.ofSource keywords r s₂).Moved (s₁.toList.length + 1)
      (s₁.toList.count '\n' + 1) m :=
    ⟨past.keywords, past.radix, fun o => by rw [past.current]; rfl,
      past.location.trans (Location.next_advance_start _), past.rest⟩
  rw [moved.tokensFrom, hu] at out
  refine ⟨_, (tokenize_eq ..).trans out, List.rel_append ?before (.cons ⟨hb.symm, nofun⟩ ?after)⟩
  case before =>
    have length := first.length_eq
    rw [List.length_append, List.length_append] at length
    have cut := List.forall₂_take_append _ _ _ first
    rwa [List.take_left' (by simpa using length)] at cut
  case after =>
    rw [List.forall₂_map_left_iff]
    exact second.imp fun _ _ like => ⟨like.kind, like.value⟩

/-- Where tokens like those of a text are parsed as a program, the text is parsed as the same. -/
theorem exists_parse_of_like {source : String} {ts us : List Token} {p : Program}
    (hk : keywords.NoEnd) (ht : tokenize keywords r source = .ok ts) (hu : (Tape.mk us).Ended)
    (like : List.Forall₂ Token.Like ts us) (h : parseTokens .program us = .ok (.program p)) :
    ∃ w, parse keywords r .program source = .ok (.program w) ∧ w.same p = true := by
  rw [parse_eq_parseTokens hk ht]
  rcases parseTokens_like (ended_of_tokenize hk ht) hu like with
    ⟨node, node', parsed, parsed', same⟩ | ⟨cause, i, t, u, -, -, -, failed⟩
  · cases h.symm.trans parsed'
    cases node with
    | program w => exact ⟨w, parsed, same⟩
    | _ => cases same
  · cases h.symm.trans failed

end

/-- Two programs joined by a line feed are a program, whose functions are those of the first one
followed by those of the second one. -/
theorem parse_join {r : Radix} {s₁ s₂ : String} {p q : Program}
    (hp : parse .standard r .program s₁ = .ok (.program p))
    (hq : parse .standard r .program s₂ = .ok (.program q)) :
    ∃ w, parse .standard r .program (s₁ ++ "\n" ++ s₂) = .ok (.program w) ∧
      sameFunctions w.functions (p.functions ++ q.functions) = true := by
  have noEnd := KeywordTable.noEnd_standard
  obtain ⟨ts, ht⟩ := exists_tokenize_of_parse hp
  obtain ⟨vs, hv⟩ := exists_tokenize_of_parse hq
  obtain ⟨us, e, rfl⟩ := (input_of_tokenize ht).exists_append
  obtain ⟨ws, whole, like⟩ := exists_tokenize_join (b := .lineFeed .start) noEnd ht hv
    (List.forall₂_same.2 (like_of_tokenize ht)) (List.forall₂_same.2 (like_of_tokenize hv)) rfl
  have input := input_of_tokenize ht
  have input' := input_of_tokenize hv
  rw [parse_eq_parseTokens noEnd ht] at hp
  rw [parse_eq_parseTokens noEnd hv] at hq
  obtain ⟨pos, joined⟩ := parseTokens_join (b := .lineFeed .start) input input' rfl hp hq
  exact exists_parse_of_like noEnd whole (input.join rfl input').ended_tape like joined

/-- A comment ends the first program, and a terminator begins the second one. -/
theorem parse_join_comment : ∃ p q,
    parse .standard .decimal .program "fn f()\x7b\x7d#" = .ok (.program p) ∧
    parse .standard .decimal .program ";fn g()\x7b-a\x7d" = .ok (.program q) ∧
    ∃ w, parse .standard .decimal .program ("fn f()\x7b\x7d#" ++ "\n" ++ ";fn g()\x7b-a\x7d") =
      .ok (.program w) ∧ sameFunctions w.functions (p.functions ++ q.functions) = true := by
  have tokens : tokenize .standard .decimal "fn f()\x7b\x7d#" = .ok
      [⟨.keyword .fn, .text "fn", ⟨0, 1, 1⟩⟩, ⟨.ident, .text "f", ⟨3, 1, 4⟩⟩,
        ⟨.op .lparen, .text "(", ⟨4, 1, 5⟩⟩, ⟨.op .rparen, .text ")", ⟨5, 1, 6⟩⟩,
        ⟨.op .lbrace, .text "\x7b", ⟨6, 1, 7⟩⟩, ⟨.op .rbrace, .text "\x7d", ⟨7, 1, 8⟩⟩,
        ⟨.eof, .text "EOF", ⟨9, 1, 10⟩⟩] := by decide +kernel
  have tokens' : tokenize .standard .decimal ";fn g()\x7b-a\x7d" = .ok
      [⟨.op .lineEnd, .text ";", ⟨0, 1, 1⟩⟩, ⟨.keyword .fn, .text "fn", ⟨1, 1, 2⟩⟩,
        ⟨.ident, .text "g", ⟨4, 1, 5⟩⟩, ⟨.op .lparen, .text "(", ⟨5, 1, 6⟩⟩,
        ⟨.op .rparen, .text ")", ⟨6, 1, 7⟩⟩, ⟨.op .lbrace, .text "\x7b", ⟨7, 1, 8⟩⟩,
        ⟨.op .neg, .text "-", ⟨8, 1, 9⟩⟩, ⟨.ident, .text "a", ⟨9, 1, 10⟩⟩,
        ⟨.op .rbrace, .text "\x7d", ⟨10, 1, 11⟩⟩, ⟨.eof, .text "EOF", ⟨11, 1, 12⟩⟩] := by
    decide +kernel
  have parsed : parse .standard .decimal .program "fn f()\x7b\x7d#" = .ok (.program
      ⟨[⟨⟨.ident, .text "f", ⟨3, 1, 4⟩⟩, ⟨[], 4⟩, ⟨[], 6⟩, 0⟩], 0⟩) :=
    (parse_eq_parseTokens KeywordTable.noEnd_standard tokens).trans rfl
  have parsed' : parse .standard .decimal .program ";fn g()\x7b-a\x7d" = .ok (.program
      ⟨[⟨⟨.ident, .text "g", ⟨4, 1, 5⟩⟩, ⟨[], 5⟩, ⟨[.expr (.unary ⟨.op .neg, .text "-", ⟨8, 1, 9⟩⟩
        (.leaf .symbol (.text "a") 9) 8) 8], 7⟩, 1⟩], 1⟩) :=
    (parse_eq_parseTokens KeywordTable.noEnd_standard tokens').trans rfl
  exact ⟨_, _, parsed, parsed', parse_join parsed parsed'⟩

end Quill
