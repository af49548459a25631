import Quill.Proofs.Doubling
import Quill.Proofs.OnDemand

/-!
# Blank lines

A line that holds nothing but blanks and a comment is never significant (`parse_blankLine`): where
a line break is read as a terminator, another one after it changes neither the tree nor, but for
its position, the fault.

Two lexers read the two texts (`Lexer.Doubled`). Up to the break they read the same characters, and
since a lexeme does not depend on what comes after a line feed (`Lexeme.of_lineFeed`), they read the
same tokens. After the break the second one has another terminator to read, and when it has done so
the same characters are left to both. So they keep step, and `Rule.ends` tells how the parses end.
-/

namespace Quill

open TokenReader LawfulReader

/-! ## Lexemes before a line feed -/

/-- The rest of a line does not depend on what comes after a line feed. -/
theorem restOfLine_append_lineFeed (text after : List Char) :
    restOfLine (text ++ '\n' :: after) = restOfLine text := by
  induction text with
  | nil => simp [restOfLine]
  | cons c text ih =>
    simp only [restOfLine, List.cons_append, List.takeWhile_cons] at ih ⊢
    rw [ih]

/-- What comes after a line feed is not on the line. -/
theorem restOfLine_lineFeed_congr (text after after' : List Char) :
    restOfLine (text ++ '\n' :: after') = restOfLine (text ++ '\n' :: after) := by
  rw [restOfLine_append_lineFeed, restOfLine_append_lineFeed]

/-- With the same text in front, equal rests of a line make equal rests of a line. -/
theorem restOfLine_append_congr {text after after' : List Char}
    (same : restOfLine after' = restOfLine after) :
    restOfLine (text ++ after') = restOfLine (text ++ after) := by
  induction text with
  | nil => exact same
  | cons c text ih =>
    simp only [restOfLine, List.cons_append, List.takeWhile_cons] at ih ⊢
    rw [ih]

/-- What stands next and goes over no line feed stands next on its line. -/
theorem prefix_restOfLine_iff {text cs : List Char} (hn : '\n' ∉ text) :
    text <+: restOfLine cs ↔ text <+: cs := by
  refine ⟨fun h => h.trans (List.takeWhile_prefix _), ?_⟩
  rintro ⟨after, rfl⟩
  rw [restOfLine, List.takeWhile_append_of_pos]
  · exact List.prefix_append ..
  · intro c hc
    exact decide_eq_true fun heq => hn (heq ▸ hc)

/-- Where the same is left of the line, the same character stands next, or a line feed does. -/
theorem eq_or_mem_head?_of_restOfLine {after after' : List Char}
    (same : restOfLine after' = restOfLine after) :
    ∀ c ∈ after'.head?, c = '\n' ∨ c ∈ after.head? := by
  cases after' with
  | nil => simp
  | cons c cs =>
    rintro d ⟨⟩
    by_cases hc : c = '\n'
    · exact .inl hc
    · have stands : [c] <+: c :: cs := List.prefix_append [c] cs
      rw [← prefix_restOfLine_iff (by simpa using Ne.symm hc), same,
        prefix_restOfLine_iff (by simpa using Ne.symm hc)] at stands
      obtain ⟨rest, rfl⟩ := stands
      exact .inr rfl

/-- A run of characters, none of which is the line feed, does not go on to another line. -/
theorem MaximalRun.of_restOfLine {p : Char → Bool} {text after after' : List Char}
    (h : MaximalRun p text after) (hp : p '\n' = false)
    (same : restOfLine after' = restOfLine after) : MaximalRun p text after' := by
  refine ⟨h.1, fun c hc => ?_⟩
  rcases eq_or_mem_head?_of_restOfLine same c hc with rfl | hc
  · exact hp
  · exact h.2 c hc

/-- Of what comes after a gap only the rest of the line matters. -/
theorem IsGap.of_restOfLine {text after after' : List Char} (h : IsGap after text)
    (same : restOfLine after' = restOfLine after) : IsGap after' text := by
  cases h with
  | blanks hb => exact .blanks hb
  | comment hb hn he =>
    refine .comment hb hn fun c hc => ?_
    rcases eq_or_mem_head?_of_restOfLine same c hc with rfl | hc
    · rfl
    · exact he c hc

/-- The line feed is no part of any other operator. -/
theorem eq_of_mem_lexemes {e : List Char × Operator} (h : e ∈ Operator.lexemes)
    (hn : '\n' ∈ e.1) : e.1 = ['\n'] := by
  have all : ∀ e ∈ Operator.lexemes, '\n' ∈ e.1 → e.1 = ['\n'] := by decide
  exact all e h hn

namespace Lexeme
variable {keywords : KeywordTable} {r : Radix} {previous : Option Kind} {t : Token}
  {text after before after' : List Char}

/-- Of what comes after a lexeme only the rest of the line matters. -/
theorem of_restOfLine (h : Lexeme keywords r previous after t text)
    (same : restOfLine after' = restOfLine after) :
    Lexeme keywords r previous after' t text := by
  have numeral : r.isNumeral '\n' = false := by
    simp [Radix.isNumeral, Radix.isDigit, show digitValue? '\n' = none by decide]
  have word : isWordPart '\n' = false := by decide
  obtain ⟨c, cs, nonempty, -⟩ := h.first
  cases h with
  | number hc run hx => exact .number hc (run.of_restOfLine numeral same) hx
  | keyword hc run hk => exact .keyword hc (run.of_restOfLine word same) hk
  | truth hc run hk hb => exact .truth hc (run.of_restOfLine word same) hk hb
  | name hc run hk hb => exact .name hc (run.of_restOfLine word same) hk hb
  | string hq quoted => exact .string hq quoted
  | op mem longest =>
    refine .op mem fun e he stands => ?_
    by_cases hn : '\n' ∈ e.1
    · rw [eq_of_mem_lexemes he hn, nonempty]
      simp
    · rw [← prefix_restOfLine_iff hn, restOfLine_append_congr same,
        prefix_restOfLine_iff hn] at stands
      exact longest e he stands

/-- What stands before a line feed is a lexeme whatever comes after the line feed. -/
theorem of_lineFeed (h : Lexeme keywords r previous (before ++ '\n' :: after) t text)
    (after' : List Char) : Lexeme keywords r previous (before ++ '\n' :: after') t text :=
  h.of_restOfLine (restOfLine_lineFeed_congr ..)

/-- A line feed is a lexeme. -/
theorem lineFeed (start : Location) :
    Lexeme keywords r previous after ⟨.op .lineEnd, .text "\n", start⟩ ['\n'] := by
  have context : Operator.lineEnd.inContext previous = .lineEnd := by
    unfold Operator.inContext
    split <;> rfl
  have lexeme : Lexeme keywords r previous after ⟨.op (Operator.lineEnd.inContext previous),
      .text (String.ofList ['\n']), start⟩ ['\n'] := by
    refine .op (by decide) fun e he stands => ?_
    by_cases hn : '\n' ∈ e.1
    · exact Nat.le_of_eq (congrArg List.length (eq_of_mem_lexemes he hn))
    · have within : e.1 <+: [] := prefix_of_not_mem stands hn
      exact Nat.le_succ_of_le within.length_le
  rw [context] at lexeme
  exact lexeme

end Lexeme

/-! ## Scans in other places -/

/-- Two scans take the same characters, and make tokens that are alike or fail in the same way. -/
inductive Scan.Like : Scan → Scan → Prop
  | ok {taken t u} : t.Like u → Like ⟨taken, .ok t⟩ ⟨taken, .ok u⟩
  | error {taken e e'} : e.Like e' → Like ⟨taken, .error e⟩ ⟨taken, .error e'⟩

/-- A token is like itself at any other place, if its value is the same as itself. -/
theorem Token.like_move {k : Kind} {v : Value} (hv : v.same v = true) (p q : Location) :
    Token.Like ⟨k, v, p⟩ ⟨k, v, q⟩ :=
  ⟨rfl, fun _ => hv⟩

/-- A number that is not a NaN is the same as itself. -/
theorem Value.same_ofMagnitude (m : Magnitude) :
    (number (.ofMagnitude m)).same (number (.ofMagnitude m)) = true := by
  simp [same, Binary64.same, Binary64.ofMagnitude]

/-- A text is the same as itself. -/
theorem Value.same_text (s : String) : (text s).same (text s) = true := by simp [same]

/-- What a token carries that has a lexeme is the same as itself. -/
theorem Lexeme.same_value {keywords : KeywordTable} {r : Radix} {previous : Option Kind}
    {after text : List Char} {t : Token} (h : Lexeme keywords r previous after t text) :
    t.value.same t.value = true := by
  cases h with
  | number _ _ hx =>
    unfold Radix.number at hx
    split at hx
    · cases hx
      exact Value.same_ofMagnitude _
    · cases hx
  | truth => simp [Value.same]
  | _ => exact Value.same_text _

namespace Scan
variable {keywords : KeywordTable} {r : Radix} {previous : Option Kind} (start start' : Location)
  (cs : List Char)

/-- A numeral is scanned alike at any place. -/
theorem like_numeral : (numeral r start cs).Like (numeral r start' cs) := by
  unfold numeral Radix.number
  dsimp only
  cases r.read (cs.takeWhile r.isNumeral) with
  | ok m =>
    exact .ok (Token.like_move (Value.same_ofMagnitude m) ..)
  | error e => cases e <;> exact .error rfl

/-- A word is scanned alike at any place. -/
theorem like_word : (word keywords start cs).Like (word keywords start' cs) := by
  unfold word wordToken
  dsimp only
  split
  · exact .ok (Token.like_move (Value.same_text _) ..)
  split
  · exact .ok (Token.like_move (by simp [Value.same]) ..)
  · exact .ok (Token.like_move (Value.same_text _) ..)

/-- What a scan takes and makes does not depend on where it begins. -/
theorem like_token :
    (token keywords r previous start cs).Like (token keywords r previous start' cs) := by
  unfold token
  split
  · exact .ok (Token.like_move (Value.same_text _) ..)
  split
  · exact like_numeral ..
  split
  · exact like_word ..
  split
  · unfold literal
    dsimp only
    split
    · exact .ok (Token.like_move (Value.same_text _) ..)
    · exact .error rfl
  unfold operator?
  cases leadingOperator? _ with
  | none => exact .error rfl
  | some => exact .ok (Token.like_move (Value.same_text _) ..)

end Scan

/-! ## Two lexers -/

/-- The token of a line feed. -/
def Token.lineFeed (start : Location) : Token := ⟨.op .lineEnd, .text "\n", start⟩

namespace Lexer

/-- No token that can still be read stands before the place of the lexer. -/
theorem le_of_mem_scanned {l : Lexer} {t : Token} (h : t ∈ l.scanned) :
    (l.cursor.offset : Int) ≤ t.pos := by
  fun_induction scanned l with
  | case1 => cases h
  | case2 l u l' ha he =>
    obtain ⟨_, _, _, -, -, pos, -⟩ := exists_pieces_of_advance ha
    obtain rfl := List.mem_singleton.1 h
    omega
  | case3 l u l' ha he ih =>
    obtain ⟨_, _, _, -, -, pos, rfl, -⟩ := exists_pieces_of_advance ha
    rcases List.mem_cons.1 h with rfl | h
    · omega
    · have after := ih h
      simp only [skip, Cursor.offset_skip] at after
      omega

/-- A terminator is read so many characters further on. -/
def Breaks (l : Lexer) (n : Nat) : Prop :=
  ∃ t ∈ l.scanned, t.kind = .op .lineEnd ∧ t.pos = ↑(l.cursor.offset + n)

/-- Two lexers go by the same keywords and the same radix, and what they have read last is of one
kind. -/
structure Aligned (l m : Lexer) : Prop where
  keywords : m.keywords = l.keywords
  radix : m.radix = l.radix
  previous : m.current.map (·.kind) = l.current.map (·.kind)

/-- Two lexers read texts that differ in one break: the second one has the gap `piece` and another
break after it, and then `after` is left to both. -/
inductive Doubled (piece after : List Char) (l m : Lexer) : Prop
  | before {text} : l.Aligned m → l.cursor.rest = text ++ '\n' :: after →
      m.cursor.rest = text ++ '\n' :: (piece ++ '\n' :: after) → l.Breaks text.length →
      Doubled piece after l m
  | between : l.Aligned m → l.current.map (·.kind) = some (.op .lineEnd) →
      l.cursor.rest = after → m.cursor.rest = piece ++ '\n' :: after → Doubled piece after l m
  | after : l.Aligned m → l.cursor.rest = m.cursor.rest → Doubled piece after l m

/-- Two lexers read texts that differ in one break, and their current tokens are alike. -/
def InStep (piece after : List Char) (l m : Lexer) : Prop :=
  l.Doubled piece after m ∧ ∃ t u, l.current = some t ∧ m.current = some u ∧ t.Like u

variable {piece text after : List Char} {l m : Lexer} {t : Token}

/-- A line feed is read as a terminator. -/
theorem advance_of_lineFeed (rest : l.cursor.rest = text ++ '\n' :: after)
    (hg : IsGap ('\n' :: after) text) : advance l =
      .ok (.lineFeed (l.skip text).cursor.location)
        (l.past text ['\n'] (.lineFeed (l.skip text).cursor.location)) := by
  have stands : l.cursor.rest = text ++ (['\n'] ++ after) := rest
  exact advance_of_lexeme stands hg (.lineFeed _) rfl

/-- Past a gap and a lexeme the text goes on with what comes after them. -/
theorem rest_past {piece text : List Char} (rest : l.cursor.rest = piece ++ (text ++ after)) :
    (l.past piece text t).cursor.rest = after :=
  Cursor.rest_skip (Cursor.rest_skip rest)

/-- Up to a break there is only a gap, or there is another token first. -/
theorem Breaks.isGap_or_lexeme (h : l.Breaks text.length)
    (rest : l.cursor.rest = text ++ '\n' :: after) :
    IsGap ('\n' :: after) text ∨ ∃ blanks lexeme before t, text = blanks ++ (lexeme ++ before) ∧
      IsGap (lexeme ++ (before ++ '\n' :: after)) blanks ∧
      Lexeme l.keywords l.radix (l.current.map (·.kind)) (before ++ '\n' :: after) t lexeme ∧
      advance l = .ok t (l.past blanks lexeme t) ∧
      (l.past blanks lexeme t).Breaks before.length := by
  obtain ⟨t, ht, kind, pos⟩ := h
  cases ha : advance l with
  | error e l' =>
    rw [scanned] at ht
    split at ht <;> simp_all
  | ok u l' =>
    obtain ⟨blanks, lexeme, following, split, isGap, upos, rfl, ending⟩ :=
      exists_pieces_of_advance ha
    rw [scanned_eq ha] at ht
    rw [rest] at split
    -- If the terminator is the token that is read, then only the gap before that token is passed.
    have here : t = u → IsGap ('\n' :: after) text := by
      rintro rfl
      rw [upos] at pos
      obtain ⟨rfl, same⟩ := List.append_inj split (by omega)
      exact same ▸ isGap
    rcases ending with ⟨-, eof⟩ | hl
    · rw [if_pos eof] at ht
      exact .inl (here (List.mem_singleton.1 ht))
    by_cases eof : u.kind = .eof
    · rw [if_pos eof] at ht
      exact .inl (here (List.mem_singleton.1 ht))
    rw [if_neg eof] at ht
    rcases List.mem_cons.1 ht with heq | later
    · exact .inl (here heq)
    · -- Otherwise it is read later, and so the token that is read ends before it.
      have le : ↑(l.cursor.offset + blanks.length + lexeme.length) ≤ t.pos :=
        le_of_mem_scanned later
      have stands : blanks ++ lexeme <+: text ++ '\n' :: after := by
        rw [split, ← List.append_assoc]
        exact List.prefix_append ..
      have bound : (blanks ++ lexeme).length ≤ text.length := by
        rw [List.length_append]
        omega
      obtain ⟨before, rfl⟩ := List.prefix_of_prefix_length_le stands (List.prefix_append ..) bound
      rw [List.append_assoc, List.append_assoc] at split
      obtain rfl := List.append_cancel_left (List.append_cancel_left split)
      refine .inr ⟨blanks, lexeme, before, u, List.append_assoc .., isGap, hl, rfl, t, later, kind,
        ?_⟩
      rw [pos, List.length_append, List.length_append]
      simp only [skip, Cursor.offset_skip]
      omega

/-- Lexers with the same text before them have the same text before them after a skip. -/
theorem rest_skip_congr {text : List Char} (h : l.cursor.rest = m.cursor.rest) :
    (l.skip text).cursor.rest = (m.skip text).cursor.rest := by
  rw [skip, skip, Cursor.rest_skip_eq_drop, Cursor.rest_skip_eq_drop, h]

/-- Where the same characters are left to both, the lexers read the same. -/
theorem Aligned.paired_of_rest (h : l.Aligned m) (rest : l.cursor.rest = m.cursor.rest) :
    Paired (InStep piece after) (advance l) (advance m) := by
  have skipped : l.skipGap.cursor.rest = m.skipGap.cursor.rest := by
    rw [skipGap, skipGap, ← rest]
    exact rest_skip_congr rest
  have scans : l.nextScan.Like m.nextScan := by
    rw [nextScan, nextScan, h.keywords, h.radix, h.previous, skipped]
    exact Scan.like_token ..
  unfold advance
  dsimp only
  generalize l.nextScan = x, m.nextScan = y at scans
  cases scans with
  | @ok taken t u alike =>
    refine .ok alike ⟨.after ⟨h.keywords, h.radix, ?_⟩ (rest_skip_congr skipped), t, u, rfl, rfl,
      alike⟩
    exact congrArg some alike.kind.symm
  | error alike => exact .error alike

/-- The second lexer reads the other break. -/
theorem Aligned.exists_break (h : l.Aligned m)
    (current : l.current.map (·.kind) = some (.op .lineEnd)) (rest : l.cursor.rest = after)
    (hg : IsGap ['\n'] piece) (rest' : m.cursor.rest = piece ++ '\n' :: after) :
    ∃ t m', advance m = .ok t m' ∧ m'.current = some t ∧ t.kind = .op .lineEnd ∧ l.Aligned m' ∧
      l.cursor.rest = m'.cursor.rest := by
  refine ⟨_, _, advance_of_lineFeed rest' (hg.of_restOfLine rfl), rfl, rfl,
    ⟨h.keywords, h.radix, current.symm⟩, ?_⟩
  exact rest.trans (rest_past rest').symm

/-- Up to the break the lexers read the same, and then the second one has the other break to
read. -/
theorem Aligned.paired_of_breaks {text : List Char} (h : l.Aligned m)
    (rest : l.cursor.rest = text ++ '\n' :: after)
    (rest' : m.cursor.rest = text ++ '\n' :: (piece ++ '\n' :: after))
    (breaks : l.Breaks text.length) :
    Paired (InStep piece after) (advance l) (advance m) := by
  rcases breaks.isGap_or_lexeme rest with
    isGap | ⟨blanks, lexeme, before, t, rfl, isGap, hl, read, breaks⟩
  · rw [advance_of_lineFeed rest isGap, advance_of_lineFeed rest' (isGap.of_restOfLine rfl)]
    have alike : ∀ p q, (Token.lineFeed p).Like (.lineFeed q) :=
      Token.like_move (Value.same_text _)
    refine .ok (alike ..) ⟨.between ⟨h.keywords, h.radix, rfl⟩ rfl ?_ ?_, _, _, rfl, rfl, alike ..⟩
    · exact rest_past rest
    · exact rest_past rest'
  · rw [List.append_assoc, List.append_assoc] at rest rest'
    obtain ⟨c, cs, nonempty, -⟩ := hl.first
    have isGap' : IsGap (lexeme ++ (before ++ '\n' :: (piece ++ '\n' :: after))) blanks :=
      isGap.of_restOfLine (restOfLine_append_congr (restOfLine_lineFeed_congr ..))
    have hl' := (hl.of_lineFeed (piece ++ '\n' :: after)).at_ (m.skip blanks).cursor.location
    rw [← h.keywords, ← h.radix, ← h.previous] at hl'
    have read' := advance_of_lexeme rest' isGap' hl' rfl
    rw [read, read']
    have alike : t.Like ⟨t.kind, t.value, (m.skip blanks).cursor.location⟩ :=
      Token.like_move hl.same_value ..
    refine .ok alike ⟨.before ⟨h.keywords, h.radix, rfl⟩ ?_ ?_ breaks, _, _, rfl, rfl, alike⟩
    · exact rest_past rest
    · exact rest_past rest'

/-- Lexers that are in step keep step. -/
theorem keepStep_inStep (hg : IsGap ['\n'] piece) : KeepStep (InStep piece after) where
  current := by
    rintro l m ⟨-, t, u, ht, hu, alike⟩
    exact ⟨t, u, ht, hu, alike⟩
  advance := by
    rintro l m ⟨doubled, t, u, ht, hu, -⟩
    cases doubled with
    | before aligned rest rest' breaks =>
      exact .inl (aligned.paired_of_breaks rest rest' breaks)
    | after aligned rest => exact .inl (aligned.paired_of_rest rest)
    | between aligned current rest rest' =>
      obtain ⟨v, m', read, hv, kind, aligned', left⟩ :=
        aligned.exists_break current rest hg rest'
      refine .inr ⟨fun w hw => ?_, v, m', read, hv, kind, aligned'.paired_of_rest left⟩
      rw [show l.current = some w from hw] at current
      exact Option.some.inj current

end Lexer

/-! ## Texts -/

/-- Where a line break is read as a terminator, a line after it that holds nothing but blanks and a
comment makes no difference: the texts are parsed as trees that are the same, or the parses fail in
the same way. -/
theorem parse_blankLine {keywords : KeywordTable} {r : Radix} {entry : Entry} {u g v : String}
    (marker : ∃ t ∈ scanned keywords r (u ++ "\n" ++ v),
      t.kind = .op .lineEnd ∧ t.pos = u.toList.length)
    (hg : IsGap ['\n'] g.toList) :
    (∃ node node', parse keywords r entry (u ++ "\n" ++ v) = .ok node ∧
      parse keywords r entry (u ++ "\n" ++ g ++ "\n" ++ v) = .ok node' ∧
      node.same node' = true) ∨
    ∃ e e', parse keywords r entry (u ++ "\n" ++ v) = .error e ∧
      parse keywords r entry (u ++ "\n" ++ g ++ "\n" ++ v) = .error e' ∧ e.Like e' := by
  have first : Paired (Lexer.InStep g.toList v.toList)
      (advance (Lexer.ofSource keywords r (u ++ "\n" ++ v)))
      (advance (Lexer.ofSource keywords r (u ++ "\n" ++ g ++ "\n" ++ v))) := by
    obtain ⟨t, ht, kind, pos⟩ := marker
    have breaks : (Lexer.ofSource keywords r (u ++ "\n" ++ v)).Breaks u.toList.length := by
      refine ⟨t, ht, kind, pos.trans ?_⟩
      exact congrArg Nat.cast (Nat.zero_add _).symm
    have rest : (u ++ "\n" ++ v).toList = u.toList ++ '\n' :: v.toList := by simp
    have rest' : (u ++ "\n" ++ g ++ "\n" ++ v).toList =
        u.toList ++ '\n' :: (g.toList ++ '\n' :: v.toList) := by simp
    exact Lexer.Aligned.paired_of_breaks ⟨rfl, rfl, rfl⟩ rest rest' breaks
  generalize hx : advance (Lexer.ofSource keywords r (u ++ "\n" ++ v)) = x,
    hy : advance (Lexer.ofSource keywords r (u ++ "\n" ++ g ++ "\n" ++ v)) = y at first
  cases first with
  | error alike =>
    rw [parse_eq_outcome, parse_eq_outcome, bind_eq, bind_eq, hx, hy]
    exact .inr ⟨_, _, rfl, rfl, alike⟩
  | @ok _ _ l m _ inStep =>
    have plain : (Rule.entry entry).Like (.entry entry) := .plain rfl
    have ends := Rule.ends_parse (Lexer.keepStep_inStep hg) plain
      (.inl ⟨inStep, fun _ _ h => nomatch h⟩) (Lexer.valid_of_advance hx)
      (Lexer.valid_of_advance hy)
    rw [parse_of_advance hx, parse_of_advance hy]
    generalize (Rule.entry entry).parse l = x, (Rule.entry entry).parse m = y at ends
    cases ends with
    | ok same _ => exact .inl ⟨_, _, rfl, rfl, same⟩
    | behind lags | failing lags => cases lags
    | rejected => exact .inr ⟨_, _, rfl, rfl, rfl⟩
    | unread _ alike => exact .inr ⟨_, _, rfl, rfl, alike⟩

/-- A line with a comment before a clause. -/
theorem parse_blankLine_else :
    (∃ t ∈ scanned .standard .decimal ("if a b" ++ "\n" ++ "else c"),
      t.kind = .op .lineEnd ∧ t.pos = "if a b".toList.length) ∧
    IsGap ['\n'] "  # d".toList ∧
    ((∃ node node', parse .standard .decimal .statement ("if a b" ++ "\n" ++ "else c") =
        .ok node ∧
      parse .standard .decimal .statement ("if a b" ++ "\n" ++ "  # d" ++ "\n" ++ "else c") =
        .ok node' ∧
      node.same node' = true) ∨
    ∃ e e', parse .standard .decimal .statement ("if a b" ++ "\n" ++ "else c") = .error e ∧
      parse .standard .decimal .statement ("if a b" ++ "\n" ++ "  # d" ++ "\n" ++ "else c") =
        .error e' ∧ e.Like e') := by
  have tokens : tokenize .standard .decimal ("if a b" ++ "\n" ++ "else c") =
      .ok [⟨.keyword .if_, .text "if", ⟨0, 1, 1⟩⟩, ⟨.ident, .text "a", ⟨3, 1, 4⟩⟩,
        ⟨.ident, .text "b", ⟨5, 1, 6⟩⟩, ⟨.op .lineEnd, .text "\n", ⟨6, 1, 7⟩⟩,
        ⟨.keyword .else_, .text "else", ⟨7, 2, 1⟩⟩, ⟨.ident, .text "c", ⟨12, 2, 6⟩⟩,
        ⟨.eof, .text "EOF", ⟨13, 2, 7⟩⟩] := by decide +kernel
  have marker : ∃ t ∈ scanned .standard .decimal ("if a b" ++ "\n" ++ "else c"),
      t.kind = .op .lineEnd ∧ t.pos = "if a b".toList.length := by
    rw [scanned_of_tokenize tokens]
    exact ⟨⟨.op .lineEnd, .text "\n", ⟨6, 1, 7⟩⟩, by decide, rfl, by decide⟩
  have gap : IsGap ['\n'] "  # d".toList := by
    have comment : IsGap ['\n'] ([' ', ' '] ++ '#' :: [' ', 'd']) :=
      .comment (by simp [isBlank]) (by simp) (by simp)
    exact comment
  exact ⟨marker, gap, parse_blankLine marker gap⟩

end Quill
