import Quill.Proofs.BlankLine

/-!
# Texts joined by a line feed

A line feed ends whatever is being read. So a text that has tokens can be followed by a line feed
and another text: the tokens of the whole are those of the first text, without the end of the input,
the line feed, and the tokens of the second text, which are moved by what stands before it
(`tokenize_join`). Where the second text has no tokens, the whole has none for the same reason.

Two pairs of lexers are compared. While one reads the first text, the other one reads the whole and
has the same characters before it and the line feed after them (`Lexer.Outruns`). Afterwards one
reads the second text from its beginning and the other one has the same characters left at a later
place (`Lexer.Moved`). What was read last differs then, but neither the beginning of the input nor a
line feed makes a sign join two operands.
-/

namespace Quill

open TokenReader

/-! ## Moving -/

/-- The place so many characters and lines further on, in the same column. -/
def Location.move (l : Location) (chars lines : Nat) : Location :=
  ⟨l.offset + chars, l.line + lines, l.column⟩

/-- The token at a place so many characters and lines further on. -/
def Token.move (t : Token) (chars lines : Nat) : Token :=
  { t with start := t.start.move chars lines }

/-- The failure so many characters further on, if it has a position. -/
def Fault.move (e : Fault) (chars : Nat) : Fault :=
  match e with
  | diagnostic d => diagnostic { d with position := d.position + chars }
  | e => e

/-- The scan of what stands so many characters and lines further on. -/
def Scan.move (scan : Scan) (chars lines : Nat) : Scan :=
  ⟨scan.taken, (scan.outcome.map (·.move chars lines)).mapError (·.move chars)⟩

namespace Location

/-- After a character a place that is moved is moved as before. -/
theorem next_move (l : Location) (chars lines : Nat) (c : Char) :
    (l.move chars lines).next c = (l.next c).move chars lines := by
  unfold next move
  split <;> simp only [mk.injEq, and_true] <;> omega

/-- After a text a place that is moved is moved as before. -/
theorem advance_move (l : Location) (chars lines : Nat) (text : List Char) :
    (l.move chars lines).advance text = (l.advance text).move chars lines := by
  induction text generalizing l with
  | nil => rfl
  | cons c text ih => rw [advance_cons, advance_cons, next_move, ih]

/-- Every line feed moves the line by one. -/
theorem line_advance (l : Location) (text : List Char) :
    (l.advance text).line = l.line + text.count '\n' := by
  induction text generalizing l with
  | nil => simp
  | cons c text ih =>
    rw [advance_cons, ih, next]
    split
    · rename_i h
      rw [h, List.count_cons_self]
      push_cast
      omega
    · rename_i h
      rw [List.count_cons_of_ne h]

end Location

namespace Scan
variable {keywords : KeywordTable} {r : Radix} {previous previous' : Option Kind}
  {start : Location} {chars lines : Nat} {cs : List Char}

/-- A numeral is scanned at another place as the same, moved. -/
theorem numeral_move :
    numeral r (start.move chars lines) cs = (numeral r start cs).move chars lines := by
  unfold numeral Radix.number
  dsimp only
  cases r.read (cs.takeWhile r.isNumeral) with
  | ok m => rfl
  | error e => cases e <;> rfl

/-- A word is scanned at another place as the same, moved. -/
theorem word_move :
    word keywords (start.move chars lines) cs = (word keywords start cs).move chars lines := by
  unfold word wordToken
  dsimp only
  split
  · rfl
  split <;> rfl

/-- A string is scanned at another place as the same, moved. -/
theorem literal_move {quote : Char} :
    literal (start.move chars lines) quote cs = (literal start quote cs).move chars lines := by
  unfold literal
  dsimp only
  split <;> rfl

/-- An operator is scanned at another place as the same, moved, if the context is as good as the
same. -/
theorem operator?_move (same : ∀ o : Operator, o.inContext previous' = o.inContext previous) :
    operator? previous' (start.move chars lines) cs =
      (operator? previous start cs).map (·.move chars lines) := by
  unfold operator?
  cases leadingOperator? cs with
  | none => rfl
  | some found =>
    simp only [Option.map_some, same]
    rfl

/-- A scan of the same characters in another place gives the same in that place. -/
theorem token_move (same : ∀ o : Operator, o.inContext previous' = o.inContext previous) :
    token keywords r previous' (start.move chars lines) cs =
      (token keywords r previous start cs).move chars lines := by
  unfold token
  split
  · rfl
  split
  · exact numeral_move
  split
  · exact word_move
  split
  · exact literal_move
  rw [operator?_move same]
  cases operator? previous start _ <;> rfl

end Scan

/-! ## Reading all tokens -/

namespace Lexer

section
variable {l l' : Lexer} {t : Token} {e : Fault}

/-- At the end of the input that is the only token left. -/
theorem outcome_tokensFrom_of_eof (ha : advance l = .ok t l') (ht : t.kind = .eof) :
    outcome l.tokensFrom = .ok [t] := by
  rw [tokensFrom_of_eof ha ht]
  rfl

/-- Where the next token cannot be read, that is the outcome of reading all of them. -/
theorem outcome_tokensFrom_of_error (ha : advance l = .error e l') :
    outcome l.tokensFrom = .error e := by
  rw [tokensFrom_of_error ha]
  rfl

/-- A token that is not the end comes before what is read after it. -/
theorem outcome_tokensFrom_of_ne_eof (ha : advance l = .ok t l') (ht : t.kind ≠ .eof) :
    outcome l.tokensFrom = (outcome l'.tokensFrom).map (t :: ·) := by
  rw [tokensFrom]
  split
  · rename_i h
    cases ha.symm.trans h
  · rename_i h
    cases ha.symm.trans h
    rw [dif_neg ht]
    cases l'.tokensFrom <;> rfl

end

/-! ## Up to the line feed -/

/-- The second lexer has what the first one has, which ends at `place`, and after it a line feed and
further characters. -/
structure Outruns (place : Location) (after : List Char) (l m : Lexer) : Prop where
  keywords : m.keywords = l.keywords
  radix : m.radix = l.radix
  current : m.current = l.current
  location : m.cursor.location = l.cursor.location
  rest : m.cursor.rest = l.cursor.rest ++ '\n' :: after
  ends : l.cursor.location.advance l.cursor.rest = place

/-- The second lexer has read the line feed at `place`, and `after` is left. -/
structure PastLineFeed (place : Location) (after : List Char) (l m : Lexer) : Prop where
  keywords : m.keywords = l.keywords
  radix : m.radix = l.radix
  current : m.current = some (.lineFeed place)
  location : m.cursor.location = place.next '\n'
  rest : m.cursor.rest = after

variable {l l' m : Lexer} {t : Token} {place : Location} {after : List Char}

/-- Past a gap and a lexeme the place has advanced over both. -/
theorem location_past (piece text : List Char) :
    (l.past piece text t).cursor.location = (l.cursor.location.advance piece).advance text := by
  show ((l.cursor.skip piece).skip text).location = _
  rw [Cursor.location_skip, Cursor.location_skip]

/-- A token is found after the gap. -/
theorem start_of_advance {piece text following : List Char}
    (rest : l.cursor.rest = piece ++ (text ++ following)) (hg : IsGap (text ++ following) piece)
    (hl : Lexeme l.keywords l.radix (l.current.map (·.kind)) following t text)
    (ha : advance l = .ok t l') : t.start = (l.skip piece).cursor.location := by
  have read := ha.symm.trans (advance_of_lexeme rest hg (hl.at_ _) rfl)
  exact congrArg Token.start (EStateM.Result.ok.inj read).1

/-- A token of the first text is read on the second one, too. -/
theorem Outruns.advance (h : l.Outruns place after m) (ha : Lexer.advance l = .ok t l')
    (ht : t.kind ≠ .eof) : ∃ m', Lexer.advance m = .ok t m' ∧ l'.Outruns place after m' := by
  obtain ⟨piece, text, following, rest, isGap, -, rfl, ending⟩ := exists_pieces_of_advance ha
  rcases ending with ⟨-, eof⟩ | hl
  · exact absurd eof ht
  have start := start_of_advance rest isGap hl ha
  have same : restOfLine (following ++ '\n' :: after) = restOfLine following :=
    restOfLine_append_lineFeed ..
  have rest' : m.cursor.rest = piece ++ (text ++ (following ++ '\n' :: after)) := by
    rw [h.rest, rest, List.append_assoc, List.append_assoc]
  have hl' := hl.of_restOfLine same
  rw [← h.keywords, ← h.radix, ← h.current] at hl'
  have read : Lexer.advance m = .ok t (m.past piece text t) := by
    refine advance_of_lexeme rest' (isGap.of_restOfLine (restOfLine_append_congr same)) hl' ?_
    rw [start, skip, skip, Cursor.location_skip, Cursor.location_skip, h.location]
  refine ⟨_, read, h.keywords, h.radix, rfl, ?location, ?rest, ?ends⟩
  case location => rw [location_past, location_past, h.location]
  case rest => rw [rest_past rest', rest_past rest]
  case ends =>
    rw [location_past, rest_past rest, ← Location.advance_append, ← Location.advance_append,
      ← rest, h.ends]

/-- Where the first text ends, the line feed is read on the second one. -/
theorem Outruns.advance_of_eof (h : l.Outruns place after m) (ha : Lexer.advance l = .ok t l')
    (hk : l.keywords.NoEnd) (ht : t.kind = .eof) :
    ∃ m', Lexer.advance m = .ok (.lineFeed place) m' ∧ l.PastLineFeed place after m' := by
  obtain ⟨piece, text, following, rest, isGap, -, -, ending⟩ := exists_pieces_of_advance ha
  rcases ending with ⟨nil, -⟩ | hl
  · rw [nil, List.append_nil] at rest
    rw [nil] at isGap
    have rest' : m.cursor.rest = piece ++ '\n' :: after := by rw [h.rest, rest]
    have reached : m.cursor.location.advance piece = place := by
      rw [h.location, ← rest, h.ends]
    have read := advance_of_lineFeed rest' (isGap.of_restOfLine rfl)
    rw [skip, Cursor.location_skip, reached] at read
    refine ⟨_, read, h.keywords, h.radix, rfl, ?_, rest_past rest'⟩
    rw [location_past, reached, Location.advance_cons, Location.advance_nil]
  · exact absurd ht (hl.kind_ne_eof hk)

/-- All tokens of the first text are read on the second one, and then the line feed. -/
theorem Outruns.tokensFrom (h : l.Outruns place after m) {ts : List Token} (hk : l.keywords.NoEnd)
    (hts : l.tokensFrom = .ok ts l') :
    ∃ before last m', ts = before ++ [last] ∧ last.kind = .eof ∧ l.PastLineFeed place after m' ∧
      outcome m.tokensFrom =
        (outcome m'.tokensFrom).map fun us => before ++ .lineFeed place :: us := by
  refine tokensFrom_induction (motive := fun l ts => l.keywords.NoEnd →
    ∀ m, l.Outruns place after m → ∃ before last m', ts = before ++ [last] ∧ last.kind = .eof ∧
      l.PastLineFeed place after m' ∧ outcome m.tokensFrom =
        (outcome m'.tokensFrom).map fun us => before ++ .lineFeed place :: us)
    ?ended ?token hts hk m h
  case ended =>
    intro l l' t ha ht hk m h
    obtain ⟨m', read, reached⟩ := h.advance_of_eof ha hk ht
    exact ⟨[], t, m', rfl, ht, reached, outcome_tokensFrom_of_ne_eof read nofun⟩
  case token =>
    intro l l₁ t ts ha ht ih hk m h
    obtain ⟨m₁, read, h₁⟩ := h.advance ha ht
    obtain ⟨-, rfl⟩ := advance_eq_ok ha
    obtain ⟨before, last, m', rfl, eof, reached, out⟩ := ih hk m₁ h₁
    refine ⟨t :: before, last, m', rfl, eof, ?_, ?_⟩
    · exact ⟨reached.keywords, reached.radix, reached.current, reached.location, reached.rest⟩
    · rw [outcome_tokensFrom_of_ne_eof read ht, out]
      cases outcome m'.tokensFrom <;> rfl

/-! ## After the line feed -/

/-- The second lexer has the same characters left so many characters and lines further on, and a
sign there is what it is for the first one. -/
structure Moved (chars lines : Nat) (l m : Lexer) : Prop where
  keywords : m.keywords = l.keywords
  radix : m.radix = l.radix
  context : ∀ o : Operator,
    o.inContext (m.current.map (·.kind)) = o.inContext (l.current.map (·.kind))
  location : m.cursor.location = l.cursor.location.move chars lines
  rest : m.cursor.rest = l.cursor.rest

variable {chars lines : Nat}

/-- Lexers one of which is moved stay so over the same text. -/
theorem Moved.skip (h : l.Moved chars lines m) (text : List Char) :
    (l.skip text).Moved chars lines (m.skip text) where
  keywords := h.keywords
  radix := h.radix
  context := h.context
  location := by
    rw [Lexer.skip, Lexer.skip, Cursor.location_skip, Cursor.location_skip, h.location,
      Location.advance_move]
  rest := rest_skip_congr h.rest

/-- Lexers one of which is moved skip the same gap. -/
theorem Moved.skipGap (h : l.Moved chars lines m) : l.skipGap.Moved chars lines m.skipGap := by
  rw [Lexer.skipGap, Lexer.skipGap, h.rest]
  exact h.skip _

/-- Lexers one of which is moved scan the same, moved. -/
theorem Moved.nextScan (h : l.Moved chars lines m) :
    m.nextScan = l.nextScan.move chars lines := by
  rw [Lexer.nextScan, Lexer.nextScan, h.keywords, h.radix, h.skipGap.rest, h.skipGap.location]
  exact Scan.token_move h.context

/-- Lexers one of which is moved read the same token, moved. -/
theorem Moved.advance (h : l.Moved chars lines m) (ha : Lexer.advance l = .ok t l') :
    ∃ m', Lexer.advance m = .ok (t.move chars lines) m' ∧ l'.Moved chars lines m' := by
  obtain ⟨scan, rfl⟩ := advance_eq_ok ha
  have moved := h.skipGap.skip l.nextScan.taken
  refine ⟨{ m.skipGap.skip l.nextScan.taken with current := some (t.move chars lines) }, ?_,
    moved.keywords, moved.radix, fun _ => rfl, moved.location, moved.rest⟩
  unfold Lexer.advance
  simp only [h.nextScan, Scan.move, scan, Except.map, Except.mapError]

/-- Lexers one of which is moved fail alike, at places moved. -/
theorem Moved.advance_error (h : l.Moved chars lines m) {e : Fault}
    (ha : Lexer.advance l = .error e l') :
    ∃ m', Lexer.advance m = .error (e.move chars) m' := by
  unfold Lexer.advance
  simp only [h.nextScan, Scan.move, advance_eq_error ha, Except.map, Except.mapError]
  exact ⟨_, rfl⟩

/-- Both lexers read the same, the second one so many characters and lines further on. -/
theorem Moved.tokensFrom (h : l.Moved chars lines m) : outcome m.tokensFrom =
    ((outcome l.tokensFrom).map (List.map (·.move chars lines))).mapError (·.move chars) := by
  induction l using tokensFrom.induct generalizing m with
  | case1 l e l₁ ha =>
    obtain ⟨m', read⟩ := h.advance_error ha
    rw [outcome_tokensFrom_of_error ha, outcome_tokensFrom_of_error read]
    rfl
  | case2 l t l₁ ha ht =>
    obtain ⟨m', read, -⟩ := h.advance ha
    rw [outcome_tokensFrom_of_eof ha ht, outcome_tokensFrom_of_eof read ht]
    rfl
  | case3 l t l₁ ha ht ts l₂ hr ih =>
    obtain ⟨m', read, h'⟩ := h.advance ha
    rw [outcome_tokensFrom_of_ne_eof ha ht, outcome_tokensFrom_of_ne_eof read ht, ih h', hr]
    rfl
  | case4 l t l₁ ha ht e l₂ hr ih =>
    obtain ⟨m', read, h'⟩ := h.advance ha
    rw [outcome_tokensFrom_of_ne_eof ha ht, outcome_tokensFrom_of_ne_eof read ht, ih h', hr]
    rfl

end Lexer

/-! ## Texts -/

/-- The tokens of two texts that are joined by a line feed are those of the first one up to the end
of the input, the line feed, and those of the second one, which stand so many characters and lines
further on in the same columns. If the second text has no tokens for some fault, that is the fault
of the whole, and its position is so many characters further on. -/
theorem tokenize_join {keywords : KeywordTable} {r : Radix} {s₁ s₂ : String} {ts : List Token}
    (hk : keywords.NoEnd) (h : tokenize keywords r s₁ = .ok ts) :
    ∃ before last, ts = before ++ [last] ∧ last.kind = .eof ∧
      (Location.start.advance s₁.toList).offset = s₁.length ∧
      match tokenize keywords r s₂ with
      | .ok us => tokenize keywords r (s₁ ++ "\n" ++ s₂) =
        .ok (before ++ .lineFeed (Location.start.advance s₁.toList) ::
          us.map (·.move (s₁.length + 1) (s₁.toList.count '\n' + 1)))
      | .error e => tokenize keywords r (s₁ ++ "\n" ++ s₂) = .error (e.move (s₁.length + 1)) := by
  rw [tokenize_eq, outcome_eq_ok_iff] at h
  obtain ⟨l', hts⟩ := h
  have outruns : (Lexer.ofSource keywords r s₁).Outruns (Location.start.advance s₁.toList)
      s₂.toList (Lexer.ofSource keywords r (s₁ ++ "\n" ++ s₂)) := by
    refine ⟨rfl, rfl, rfl, rfl, ?_, rfl⟩
    show (s₁ ++ "\n" ++ s₂).toList = s₁.toList ++ '\n' :: s₂.toList
    simp
  obtain ⟨before, last, m, rfl, eof, reached, out⟩ := outruns.tokensFrom hk hts
  have offset := Location.offset_advance .start s₁.toList
  have line := Location.line_advance .start s₁.toList
  have moved : (Lexer.ofSource keywords r s₂).Moved (s₁.length + 1)
      (s₁.toList.count '\n' + 1) m := by
    refine ⟨reached.keywords, reached.radix, ?context, ?location, reached.rest⟩
    case context =>
      -- Neither the beginning of the text nor a line feed ends an operand.
      intro o
      rw [reached.current]
      rfl
    case location =>
      rw [reached.location, Location.next, if_pos rfl, offset, line]
      show _ = Location.start.move (s₁.length + 1) (s₁.toList.count '\n' + 1)
      simp only [Location.move, Location.start, Location.mk.injEq, String.length_toList, and_true]
      omega
  refine ⟨before, last, rfl, eof, ?_, ?_⟩
  · rw [offset, String.length_toList]
    exact Int.zero_add _
  · rw [tokenize_eq, tokenize_eq, out, moved.tokensFrom]
    cases outcome (Lexer.ofSource keywords r s₂).tokensFrom <;> rfl

/-- A sign after a comment and the end of its line. -/
theorem tokenize_join_comment :
    KeywordTable.standard.NoEnd ∧
    tokenize .standard .decimal "a # -" = .ok
      ([⟨.ident, .text "a", ⟨0, 1, 1⟩⟩] ++ [⟨.eof, .text "EOF", ⟨5, 1, 6⟩⟩]) ∧
    tokenize .standard .decimal "-b" = .ok [⟨.op .neg, .text "-", ⟨0, 1, 1⟩⟩,
      ⟨.ident, .text "b", ⟨1, 1, 2⟩⟩, ⟨.eof, .text "EOF", ⟨2, 1, 3⟩⟩] ∧
    tokenize .standard .decimal ("a # -" ++ "\n" ++ "-b") = .ok [⟨.ident, .text "a", ⟨0, 1, 1⟩⟩,
      .lineFeed ⟨5, 1, 6⟩, ⟨.op .neg, .text "-", ⟨6, 2, 1⟩⟩, ⟨.ident, .text "b", ⟨7, 2, 2⟩⟩,
      ⟨.eof, .text "EOF", ⟨8, 2, 3⟩⟩] := by
  have first : tokenize .standard .decimal "a # -" = .ok
      ([⟨.ident, .text "a", ⟨0, 1, 1⟩⟩] ++ [⟨.eof, .text "EOF", ⟨5, 1, 6⟩⟩]) := by decide +kernel
  have second : tokenize .standard .decimal "-b" = .ok [⟨.op .neg, .text "-", ⟨0, 1, 1⟩⟩,
      ⟨.ident, .text "b", ⟨1, 1, 2⟩⟩, ⟨.eof, .text "EOF", ⟨2, 1, 3⟩⟩] := by decide +kernel
  obtain ⟨before, last, split, -, -, join⟩ :=
    @tokenize_join .standard .decimal "a # -" "-b" _ KeywordTable.noEnd_standard first
  obtain ⟨rfl, -⟩ := List.append_inj' split rfl
  rw [second] at join
  exact ⟨KeywordTable.noEnd_standard, first, second, join⟩

end Quill
