import Quill.Parser
import Quill.Proofs.Agreement
import Quill.Proofs.Derivation
import Quill.Proofs.Failure
import Quill.Proofs.Lexeme

/-!
# A lexer and its tokens

To a rule a lexer is the list of the tokens that it gives. `Lexer.Gives l ts` says that the tokens
of `ts` are still to be consumed from `l`, the current one first and the end of the input last; it
is an agreement of the lexer with the tape of these tokens (`Lexer.agreement_gives`).

So a text that has tokens is parsed as they are (`parse_eq_parseTokens`). A text that is parsed has
tokens, since a parse reads up to the end of the input (`exists_tokenize_of_parse`).
-/

namespace Quill

open TokenReader LawfulReader

/-! ## Tapes -/

/-- Whether the last token is the end of the input. -/
def Tape.Ended (tape : Tape) : Prop := ∃ t, tape.tokens.getLast? = some t ∧ t.kind = .eof

/-- A tape stays at its last token, and goes on by one anywhere else. -/
theorem Tape.advance_eq_ok {tape tape' : Tape} {t : Token} (h : advance tape = .ok t tape') :
    tape.tokens = [t] ∧ tape' = tape ∨
      ∃ u ts, tape.tokens = u :: t :: ts ∧ tape'.tokens = t :: ts := by
  obtain ⟨ts⟩ := tape
  match ts, h with
  | [u], h => cases h; exact .inl ⟨rfl, rfl⟩
  | u :: v :: ts, h => cases h; exact .inr ⟨u, _, rfl, rfl⟩

/-- A token with others after it is consumed as any of its kinds. -/
theorem Tape.consumes {t : Token} {rest : List Token} {kind : Kind} (hr : rest ≠ [])
    (hk : t.hasKind kind = true) : Consumes kind (Tape.mk (t :: rest)) t (Tape.mk rest) := by
  cases rest with
  | nil => exact absurd rfl hr
  | cons u us => exact ⟨rfl, hk, u, rfl⟩

/-- A token is consumed if its kind is asked for and it is not the last one. -/
theorem Tape.consumes_of_kind {t : Token} {rest : List Token} {kind : Kind} (hr : rest ≠ [])
    (hk : t.kind = kind) : Consumes kind (Tape.mk (t :: rest)) t (Tape.mk rest) :=
  consumes hr (Token.hasKind_of_eq hk)

/-- The second token of a tape is the one that is foreseen. -/
theorem Tape.foresees {t u : Token} {us : List Token} :
    Foresees (Tape.mk (t :: u :: us)) u := ⟨_, rfl⟩

instance : LawfulReader Tape where
  Valid := Tape.Ended
  exists_current := by
    rintro ⟨ts⟩ ⟨t, ht, -⟩
    cases ts with
    | nil => cases ht
    | cons u us => exact ⟨u, rfl⟩
  valid_advance := by
    rintro s s' t ⟨u, hu, he⟩ h
    rcases Tape.advance_eq_ok h with ⟨-, rfl⟩ | ⟨v, ts, h₁, h₂⟩
    · exact ⟨u, hu, he⟩
    · exact ⟨u, by rw [h₂, ← hu, h₁]; simp, he⟩
  current_advance := by
    intro s s' t _ h
    rcases Tape.advance_eq_ok h with ⟨h₁, rfl⟩ | ⟨v, ts, -, h₂⟩
    · show s'.tokens.head? = some t
      rw [h₁]; rfl
    · show s'.tokens.head? = some t
      rw [h₂]; rfl
  remaining_le := by
    intro s s' t _ h
    show s'.tokens.length ≤ s.tokens.length
    rcases Tape.advance_eq_ok h with ⟨-, rfl⟩ | ⟨v, ts, h₁, h₂⟩
    · exact Nat.le_refl _
    · simp [h₁, h₂]
  remaining_lt := by
    rintro s s' t ⟨u, hu, he⟩ h ht
    show s'.tokens.length < s.tokens.length
    rcases Tape.advance_eq_ok h with ⟨h₁, rfl⟩ | ⟨v, ts, h₁, h₂⟩
    · rw [h₁] at hu
      cases hu
      exact absurd he ht
    · simp [h₁, h₂]
  advance_settled := by
    rintro ⟨ts⟩ ⟨t, ht, -⟩ s' h
    match ts, h with
    | [], _ => cases ht
    | [u], h => cases h
    | u :: v :: us, h => cases h

/-! ## Lexers -/

/-- No word of the table stands for the end of the input. -/
def KeywordTable.NoEnd (keywords : KeywordTable) : Prop := ∀ entry ∈ keywords, entry.2 ≠ .eof

/-- No reserved word stands for the end of the input. -/
theorem KeywordTable.noEnd_standard : KeywordTable.standard.NoEnd := by
  unfold NoEnd
  decide

/-- The faults of a scan that makes no token. -/
inductive Fault.OfScan : Fault → Prop
  | numeral {r : Radix} {text : List Char} {pos : Int} (e : NumeralError) :
      OfScan (e.toFault r text pos)
  | unterminatedString {pos : Int} : OfScan (.atPosition .unterminatedString pos)
  | unexpectedCharacter {char : String} {pos : Int} :
      OfScan (.atPosition (.unexpectedCharacter char) pos)

/-- A scan makes a token, or tells why there is none. -/
theorem Scan.ofScan_of_token {keywords : KeywordTable} {r : Radix} {previous : Option Kind}
    {start : Location} {cs : List Char} {e : Fault}
    (h : (Scan.token keywords r previous start cs).outcome = .error e) : e.OfScan := by
  unfold Scan.token at h
  split at h
  · cases h
  split at h
  · simp only [numeral, Radix.number] at h
    split at h
    · cases h
    · cases h
      exact .numeral _
  split at h
  · cases h
  split at h
  · simp only [literal] at h
    split at h
    · cases h
    · cases h
      exact .unterminatedString
  split at h
  · rename_i scan ho
    obtain ⟨_, _, rfl⟩ := Option.map_eq_some_iff.1 ho
    cases h
  · cases h
    exact .unexpectedCharacter

/-- A scan does not fail for want of steps. -/
theorem Fault.OfScan.ne_outOfSteps {e : Fault} (h : e.OfScan) : e ≠ .outOfSteps := by
  cases h with
  | numeral e => cases e <;> nofun
  | unterminatedString | unexpectedCharacter => nofun

/-- Where no word stands for it, the end of the input has no lexeme. -/
theorem Lexeme.kind_ne_eof {keywords : KeywordTable} {r : Radix} {previous : Option Kind}
    {after text : List Char} {t : Token} (h : Lexeme keywords r previous after t text)
    (hk : keywords.NoEnd) : t.kind ≠ .eof := by
  cases h with
  | keyword _ _ hl =>
    obtain ⟨l₁, l₂, rfl, -⟩ := List.lookup_eq_some_iff.1 hl
    exact hk _ (List.mem_append_right _ List.mem_cons_self)
  | _ => nofun

/-- Where no word stands for it, only the end of the input is the end. -/
theorem Scan.eq_nil_of_token_eof {keywords : KeywordTable} (hk : keywords.NoEnd) {r : Radix}
    {previous : Option Kind} {start : Location} {cs : List Char} {t : Token}
    (h : (Scan.token keywords r previous start cs).outcome = .ok t) (ht : t.kind = .eof) :
    cs = [] := by
  refine Decidable.byContradiction fun hc => ?_
  obtain ⟨-, after, -, lexeme⟩ := Scan.cuts_token hc t h
  exact lexeme.kind_ne_eof hk ht

namespace Lexer

/-- What a lexer is after the next token has been read. -/
theorem advance_eq_ok {l l' : Lexer} {t : Token} (h : advance l = .ok t l') :
    l.nextScan.outcome = .ok t ∧
      l' = { l.skipGap.skip l.nextScan.taken with current := some t } := by
  unfold advance at h
  dsimp only at h
  split at h
  · rename_i hs
    cases h
    exact ⟨hs, rfl⟩
  · cases h

/-- The lexer after a gap and a token, which is the current one then. -/
abbrev past (l : Lexer) (piece text : List Char) (t : Token) : Lexer :=
  { (l.skip piece).skip text with current := some t }

/-- What is read between tokens is a gap, and what is read of a token is its lexeme. -/
theorem exists_pieces_of_advance {l l' : Lexer} {t : Token} (h : advance l = .ok t l') :
    ∃ piece text after, l.cursor.rest = piece ++ (text ++ after) ∧ IsGap (text ++ after) piece ∧
      t.pos = ↑(l.cursor.offset + piece.length) ∧
      l' = l.past piece text t ∧
      (text ++ after = [] ∧ t.kind = .eof ∨
        Lexeme l.keywords l.radix (l.current.map (·.kind)) after t text) := by
  obtain ⟨scan, rfl⟩ := advance_eq_ok h
  obtain ⟨following, rest, isGap⟩ := exists_isGap l.cursor.rest
  have location : l.skipGap.cursor.location.offset =
      ↑(l.cursor.offset + (gap l.cursor.rest).length) := rfl
  have skipped : l.skipGap.cursor.rest = following := Cursor.rest_skip rest
  have next : l.nextScan = Scan.token l.keywords l.radix (l.current.map (·.kind))
      l.skipGap.cursor.location following := by
    simp only [nextScan, skipped]
  rw [next] at scan ⊢
  by_cases nonempty : following = []
  · subst nonempty
    cases scan
    exact ⟨gap l.cursor.rest, [], [], rest, isGap, location, rfl, .inl ⟨rfl, rfl⟩⟩
  · obtain ⟨start, after, hf, lexeme⟩ := Scan.cuts_token nonempty t scan
    rw [hf] at rest isGap
    have pos : t.pos = ↑(l.cursor.offset + (gap l.cursor.rest).length) := by
      rw [Token.pos, start, location]
    exact ⟨gap l.cursor.rest, _, after, rest, isGap, pos, rfl, .inr lexeme⟩

/-- Where the lexeme of a token stands after a gap, the token is read. -/
theorem advance_of_lexeme {l : Lexer} {piece text after : List Char} {t : Token}
    (rest : l.cursor.rest = piece ++ (text ++ after)) (hg : IsGap (text ++ after) piece)
    (h : Lexeme l.keywords l.radix (l.current.map (·.kind)) after t text)
    (start : t.start = (l.skip piece).cursor.location) :
    advance l = .ok t (l.past piece text t) := by
  have gap_eq : l.skipGap = l.skip piece := by
    obtain ⟨c, cs, rfl, hb, hn⟩ := h.first
    rw [skipGap, rest, hg.gap_append]
    rintro c ⟨⟩
    exact ⟨hb, hn⟩
  have scan : l.nextScan = ⟨text, .ok t⟩ := by
    rw [nextScan, gap_eq, ← start, show (l.skip piece).cursor.rest = text ++ after from
      Cursor.rest_skip rest]
    exact h.scan
  unfold advance
  rw [scan, gap_eq]

/-- A token cannot be read because it cannot be scanned. -/
theorem advance_eq_error {l l' : Lexer} {e : Fault} (h : advance l = .error e l') :
    l.nextScan.outcome = .error e := by
  unfold advance at h
  dsimp only at h
  split at h
  · cases h
  · rename_i hs
    cases h
    exact hs

/-- Reading a token leaves no more to be read than there was. -/
theorem remaining_le_of_advance {l l' : Lexer} {t : Token} (h : advance l = .ok t l') :
    l'.remaining ≤ l.remaining := by
  obtain ⟨-, rfl⟩ := advance_eq_ok h
  show (l.skipGap.skip _).remaining ≤ l.remaining
  rw [remaining_skip, skipGap, remaining_skip]
  omega

instance : LawfulReader Lexer where
  Valid l := l.current.isSome
  exists_current h := Option.isSome_iff_exists.1 h
  valid_advance := by
    intro l l' t _ h
    obtain ⟨-, rfl⟩ := advance_eq_ok h
    rfl
  current_advance := by
    intro l l' t _ h
    obtain ⟨-, rfl⟩ := advance_eq_ok h
    rfl
  remaining_le _ h := remaining_le_of_advance h
  remaining_lt _ h ht := remaining_lt_of_advance h ht
  advance_settled := by
    intro l _ l' h
    exact (Scan.ofScan_of_token (advance_eq_error h)).ne_outOfSteps rfl

/-- A token that has been read is current. -/
theorem valid_of_advance {l l' : Lexer} {t : Token} (h : advance l = .ok t l') : Valid l' := by
  obtain ⟨-, rfl⟩ := advance_eq_ok h
  rfl

/-- At the end of the input the end is read, and nothing is taken. -/
theorem advance_of_rest_nil {l : Lexer} (h : l.cursor.rest = []) :
    advance l = .ok (.endOfInput l.cursor.location)
      { l with current := some (.endOfInput l.cursor.location) } := by
  have gap_nil : l.skipGap = l := by
    rw [skipGap, h]
    rfl
  have scan : l.nextScan = ⟨[], .ok (.endOfInput l.cursor.location)⟩ := by
    simp only [nextScan, gap_nil, h, Scan.token]
  unfold advance
  simp only [scan, gap_nil]
  rfl

/-- The end of the input is read again and again. -/
theorem advance_of_eof {l l' : Lexer} {t : Token} (hk : l.keywords.NoEnd)
    (h : advance l = .ok t l') (ht : t.kind = .eof) : advance l' = .ok t l' := by
  obtain ⟨hs, rfl⟩ := advance_eq_ok h
  have nil : l.skipGap.cursor.rest = [] := Scan.eq_nil_of_token_eof hk hs ht
  simp only [nextScan, nil, Scan.token] at hs ⊢
  cases hs
  exact advance_of_rest_nil nil

/-- The tokens of the list are still to be consumed: the first one is current, and the last one is
the end of the input. -/
def Gives : Lexer → List Token → Prop
  | _, [] => False
  | l, [t] => l.current = some t ∧ t.kind = .eof ∧ advance l = .ok t l
  | l, t :: u :: ts => l.current = some t ∧ ∃ l', advance l = .ok u l' ∧ l'.Gives (u :: ts)

/-- The first of the tokens that a lexer gives is current. -/
theorem Gives.current {l : Lexer} {t : Token} {ts : List Token} (h : l.Gives (t :: ts)) :
    l.current = some t := by
  cases ts with
  | nil => exact h.1
  | cons u ts => exact h.1

/-- The tokens that a lexer gives end with the end of the input. -/
theorem Gives.ended {l : Lexer} {ts : List Token} (h : l.Gives ts) : (Tape.mk ts).Ended := by
  induction ts generalizing l with
  | nil => exact h.elim
  | cons t ts ih =>
    cases ts with
    | nil => exact ⟨t, rfl, h.2.1⟩
    | cons u ts =>
      obtain ⟨-, l', -, h⟩ := h
      obtain ⟨v, hv, he⟩ := ih h
      exact ⟨v, by simpa using hv, he⟩

/-- A lexer agrees with the tape of the tokens that it gives. -/
theorem agreement_gives : Agreement fun (l : Lexer) (tape : Tape) => l.Gives tape.tokens where
  current := by
    rintro l ⟨ts⟩ h
    cases ts with
    | nil => exact h.elim
    | cons t ts => exact h.current
  advance := by
    rintro l ⟨ts⟩ h
    match ts, h with
    | [t], h =>
      show Related _ (Lexer.advance l) (.ok t (Tape.mk [t]))
      rw [h.2.2]
      exact ⟨rfl, h⟩
    | t :: u :: ts, ⟨_, l', ha, h⟩ =>
      show Related _ (Lexer.advance l) (.ok u (Tape.mk (u :: ts)))
      rw [ha]
      exact ⟨rfl, h⟩

/-- What is true of the end of the input, and kept by a token in front, is true of all tokens that
are read. -/
theorem tokensFrom_induction {motive : Lexer → List Token → Prop}
    (ended : ∀ {l l' : Lexer} {t : Token}, advance l = .ok t l' → t.kind = .eof → motive l [t])
    (token : ∀ {l l₁ : Lexer} {t : Token} {ts : List Token}, advance l = .ok t l₁ →
      t.kind ≠ .eof → motive l₁ ts → motive l (t :: ts))
    {l l' : Lexer} {ts : List Token} (h : l.tokensFrom = .ok ts l') : motive l ts := by
  fun_induction tokensFrom l generalizing ts l' with
  | case1 l e l₁ ha => cases h
  | case2 l t l₁ ha ht =>
    cases h
    exact ended ha ht
  | case3 l t l₁ ha ht us l₂ hr ih =>
    cases h
    exact token ha ht (ih hr)
  | case4 l t l₁ ha ht e l₂ hr ih => cases h

/-- Where all tokens can be read, the lexer gives them. -/
theorem gives_of_tokensFrom {l l' : Lexer} {ts : List Token} (hk : l.keywords.NoEnd)
    (h : l.tokensFrom = .ok ts l') :
    ∃ t us l₁, ts = t :: us ∧ advance l = .ok t l₁ ∧ l₁.Gives ts := by
  refine tokensFrom_induction (motive := fun l ts => l.keywords.NoEnd →
    ∃ t us l₁, ts = t :: us ∧ advance l = .ok t l₁ ∧ l₁.Gives ts) ?_ ?_ h hk
  · intro l l' t ha ht hk
    obtain ⟨-, rfl⟩ := advance_eq_ok ha
    exact ⟨t, [], _, rfl, ha, rfl, ht, advance_of_eof hk ha ht⟩
  · intro l l₁ t ts ha ht ih hk
    obtain ⟨-, rfl⟩ := advance_eq_ok ha
    obtain ⟨u, us, l₂, rfl, hu, hg⟩ := ih hk
    exact ⟨t, _, _, rfl, ha, rfl, l₂, hu, hg⟩

/-- Where the next token cannot be read, reading all tokens fails. -/
theorem tokensFrom_of_error {l l' : Lexer} {e : Fault} (h : advance l = .error e l') :
    l.tokensFrom = .error e l' := by
  rw [tokensFrom]
  split <;> simp_all

/-- The end of the input is the last token. -/
theorem tokensFrom_of_eof {l l' : Lexer} {t : Token} (h : advance l = .ok t l')
    (ht : t.kind = .eof) : l.tokensFrom = .ok [t] l' := by
  rw [tokensFrom]
  split
  · rename_i h'
    rw [h] at h'
    cases h'
  · rename_i h'
    rw [h] at h'
    cases h'
    rw [dif_pos ht]

/-- Any other token is followed by further ones. -/
theorem tokensFrom_of_ne_eof {l l₁ l' : Lexer} {t : Token} {ts : List Token}
    (h : advance l = .ok t l₁) (ht : t.kind ≠ .eof) (hr : l₁.tokensFrom = .ok ts l') :
    l.tokensFrom = .ok (t :: ts) l' := by
  rw [tokensFrom]
  split
  · rename_i h'
    rw [h] at h'
    cases h'
  · rename_i h'
    rw [h] at h'
    cases h'
    rw [dif_neg ht, hr]

/-- One lexer has been read on to the other. -/
abbrev Reaches : Lexer → Lexer → Prop :=
  Relation.ReflTransGen fun l l' => ∃ t, advance l = .ok t l'

/-- All tokens can be read if the end of the input can be reached. -/
theorem exists_tokensFrom {l l₁ l' : Lexer} {t u : Token} (ha : advance l = .ok t l₁)
    (h : Reaches l₁ l') (hu : l'.current = some u) (he : u.kind = .eof) :
    ∃ ts l₂, l.tokensFrom = .ok ts l₂ := by
  induction h using Relation.ReflTransGen.head_induction_on generalizing l t with
  | refl =>
    obtain ⟨-, rfl⟩ := advance_eq_ok ha
    cases hu
    exact ⟨_, _, tokensFrom_of_eof ha he⟩
  | head step _ ih =>
    obtain ⟨v, hv⟩ := step
    by_cases ht : t.kind = .eof
    · exact ⟨_, _, tokensFrom_of_eof ha ht⟩
    · obtain ⟨ts, l₂, hr⟩ := ih hv
      exact ⟨_, _, tokensFrom_of_ne_eof ha ht hr⟩

end Lexer

/-! ## Parsing up to the end -/

section
variable {s s' : Lexer}

/-- A rule only reads on. -/
theorem Rule.Parses.reaches {c : Category} {rule : Rule c} {a : c.Tree}
    (h : rule.Parses s a s') : Lexer.Reaches s s' := h.readsTo

/-- Whether a rule goes on to the end of the input. -/
def Rule.closes : {c : Category} → Rule c → Bool
  | _, entry _ | _, end_ | _, program | _, functions => true
  | _, _ => false

/-- A rule that goes on to the end of the input gets there. -/
theorem Rule.Derives.reaches_eof {c : Category} {rule : Rule c} {a : c.Tree}
    (h : rule.Derives s a s') (hc : rule.closes = true) :
    ∃ s₁ t, Lexer.Reaches s s₁ ∧ s₁.current = some t ∧ t.kind = .eof := by
  induction h with
  | wholeProgram _ ih => exact ih rfl
  | wholeExpression h _ _ ih | wholeCondition h _ _ ih | wholeStatement h _ _ ih =>
    obtain ⟨s₂, t, hr, ht⟩ := ih rfl
    exact ⟨s₂, t, h.parses.reaches.trans hr, ht⟩
  | end_ hx h => exact ⟨_, _, hx.parses.reaches, h.current, Token.eq_of_hasKind h.2.1 rfl⟩
  | program hx _ hf hx' _ _ _ _ ih =>
    obtain ⟨s₂, t, hr, ht⟩ := ih rfl
    exact ⟨s₂, t, hx.parses.reaches.trans (hf.parses.reaches.trans (hx'.parses.reaches.trans hr)),
      ht⟩
  | noFunctions ht hk => exact ⟨_, _, .refl, ht, hk⟩
  | functions _ _ hf hx _ _ _ ih =>
    obtain ⟨s₂, t, hr, ht⟩ := ih rfl
    exact ⟨s₂, t, hf.parses.reaches.trans (hx.parses.reaches.trans hr), ht⟩
  | _ => cases hc

end

/-! ## A text and its tokens -/

section
variable {keywords : KeywordTable} {r : Radix} {entry : Entry} {source : String}

/-- The lexer that a text is parsed with. -/
def Lexer.ofSource (keywords : KeywordTable) (r : Radix) (source : String) : Lexer :=
  (Lexer.new keywords r).load source.toList

/-- The tokens of a text are those that its lexer reads. -/
theorem tokenize_eq : tokenize keywords r source =
    outcome (Lexer.ofSource keywords r source).tokensFrom := by
  unfold tokenize Lexer.ofSource
  cases ((Lexer.new keywords r).load source.toList).tokensFrom <;> rfl

/-- A parse begins with reading the first token of the text. -/
theorem parse_eq_outcome : parse keywords r entry source =
    outcome ((advance >>= fun _ => (Rule.entry entry).parse)
      (Lexer.ofSource keywords r source)) := by
  have reset : Lexer.reset (Lexer.ofSource keywords r source) =
      advance (Lexer.ofSource keywords r source) := rfl
  have run : Lexer.parse entry (Lexer.ofSource keywords r source) =
      (advance >>= fun _ => (Rule.entry entry).parse) (Lexer.ofSource keywords r source) := by
    rw [Lexer.parse, bind_eq, bind_eq, reset]
  rw [← run]
  unfold parse Lexer.ofSource
  cases Lexer.parse entry ((Lexer.new keywords r).load source.toList) <;> rfl

/-- Where the first token cannot be read the text has no tokens. -/
theorem tokenize_of_advance_error {e : Fault} {l : Lexer}
    (h : advance (Lexer.ofSource keywords r source) = .error e l) :
    tokenize keywords r source = .error e := by
  rw [tokenize_eq, Lexer.tokensFrom_of_error h]
  rfl

/-- Where the first token cannot be read nothing is parsed. -/
theorem parse_of_advance_error {e : Fault} {l : Lexer}
    (h : advance (Lexer.ofSource keywords r source) = .error e l) :
    parse keywords r entry source = .error e := by
  rw [parse_eq_outcome, bind_eq, h]
  rfl

/-- Once the first token has been read the rest is parsed from there. -/
theorem parse_of_advance {t : Token} {l : Lexer}
    (h : advance (Lexer.ofSource keywords r source) = .ok t l) :
    parse keywords r entry source = outcome ((Rule.entry entry).parse l) := by
  rw [parse_eq_outcome, bind_eq, h]

/-- Tokens are parsed by the rule of the entry. -/
theorem parseTokens_eq_outcome {ts : List Token} :
    parseTokens entry ts = outcome ((Rule.entry entry).parse (Tape.mk ts)) := by
  unfold parseTokens
  cases (Rule.entry entry).parse (Tape.mk ts) <;> rfl

/-- The tokens of a text are what is given once the first one has been read. -/
theorem gives_of_tokenize {ts : List Token} (hk : keywords.NoEnd)
    (h : tokenize keywords r source = .ok ts) :
    ∃ t l, advance (Lexer.ofSource keywords r source) = .ok t l ∧ l.Gives ts := by
  rw [tokenize_eq, outcome_eq_ok_iff] at h
  obtain ⟨l, ht⟩ := h
  obtain ⟨t, us, l₁, -, ha, hg⟩ := Lexer.gives_of_tokensFrom hk ht
  exact ⟨t, l₁, ha, hg⟩

/-- The tokens of a text end with the end of the input. -/
theorem ended_of_tokenize {ts : List Token} (hk : keywords.NoEnd)
    (h : tokenize keywords r source = .ok ts) : (Tape.mk ts).Ended := by
  obtain ⟨t, l, -, hg⟩ := gives_of_tokenize hk h
  exact hg.ended

/-- A text that has tokens is parsed as they are. -/
theorem parse_eq_parseTokens {ts : List Token} (hk : keywords.NoEnd)
    (h : tokenize keywords r source = .ok ts) :
    parse keywords r entry source = parseTokens entry ts := by
  obtain ⟨t, l₁, ha, hg⟩ := gives_of_tokenize hk h
  have hl : Valid l₁ := Lexer.valid_of_advance ha
  rw [parse_of_advance ha, parseTokens_eq_outcome]
  exact (Lexer.agreement_gives.parse (Rule.entry entry) hl hg.ended hg).outcome_eq

/-- The tree of a text is derived from the state at which its first token is current. -/
theorem exists_derives_of_parse {node : Node} (h : parse keywords r entry source = .ok node) :
    ∃ t l l', advance (Lexer.ofSource keywords r source) = .ok t l ∧
      (Rule.entry entry).Derives l node l' := by
  rw [parse_eq_outcome, outcome_eq_ok_iff, bind_eq] at h
  cases ha : advance (Lexer.ofSource keywords r source) with
  | error e l =>
    rw [ha] at h
    obtain ⟨l', h⟩ := h
    cases h
  | ok t l =>
    rw [ha] at h
    obtain ⟨l', h⟩ : ∃ l', (Rule.entry entry).parse l = .ok node l' := h
    rw [Rule.parse_eq] at h
    exact ⟨t, l, l', rfl, Rule.parses_iff_derives.1 ⟨_, h⟩⟩

/-- A text that is parsed has tokens: the parse goes on to the end of the input. -/
theorem exists_tokenize_of_parse {node : Node} (h : parse keywords r entry source = .ok node) :
    ∃ ts, tokenize keywords r source = .ok ts := by
  obtain ⟨t, l, l', ha, derives⟩ := exists_derives_of_parse h
  obtain ⟨l₁, u, hr, hu, he⟩ := derives.reaches_eof rfl
  obtain ⟨ts, l₂, ht⟩ := Lexer.exists_tokensFrom ha hr hu he
  exact ⟨ts, by rw [tokenize_eq, ht]; rfl⟩

/-- A list of tokens is parsed as what is derived from it. -/
theorem parseTokens_eq_ok_iff {ts : List Token} {node : Node} (h : (Tape.mk ts).Ended) :
    parseTokens entry ts = .ok node ↔ ∃ s, (Rule.entry entry).Derives (Tape.mk ts) node s := by
  have hv : Valid (Tape.mk ts) := h
  simp only [parseTokens_eq_outcome, outcome_eq_ok_iff, ← Rule.parses_iff_derives,
    ← Rule.parse_eq_ok_iff hv]

end

end Quill
