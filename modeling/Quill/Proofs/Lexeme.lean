import Quill.Lexer.Scan

/-!
# Lexemes

A text is cut by what its characters are. `IsGap` and `Lexeme` tell where a piece of it ends, and
not how it is found: a gap is made of blanks with at most one comment after them, and the lexeme of
a token is the longest run of the characters of its class, or goes to the first closing quote that
is not escaped, or is the longest spelling of an operator.

Both are relations between a piece and the characters `after` it, since it takes these to see that
the piece is as long as can be. A scan that makes a token takes its lexeme (`Scan.cuts_token`), and
a lexeme is scanned as its token (`Lexeme.scan`). Each is one case for each class of token, and what
else is to be known of a token that is read follows from these cases.
-/

namespace Quill

/-! ## Runs of characters -/

/-- The text is all that stands next of one class of characters. -/
def MaximalRun (p : Char → Bool) (text after : List Char) : Prop :=
  (∀ c ∈ text, p c = true) ∧ ∀ c ∈ after.head?, p c = false

/-- The characters that are taken while they fit are a maximal run. -/
theorem maximalRun_takeWhile (p : Char → Bool) (cs : List Char) :
    MaximalRun p (cs.takeWhile p) (cs.dropWhile p) := by
  refine ⟨List.all_eq_true.1 List.all_takeWhile, fun c hc => ?_⟩
  have head := List.head?_dropWhile_not p cs
  rw [Option.mem_def.1 hc] at head
  simpa using head

/-- A maximal run is what is taken while characters fit. -/
theorem MaximalRun.takeWhile_append {p : Char → Bool} {text after : List Char}
    (h : MaximalRun p text after) : (text ++ after).takeWhile p = text := by
  rw [List.takeWhile_append_of_pos h.1]
  cases after with
  | nil => simp
  | cons c after => simp [h.2 c rfl]

/-- What comes after a maximal run is what is left then. -/
theorem MaximalRun.dropWhile_append {p : Char → Bool} {text after : List Char}
    (h : MaximalRun p text after) : (text ++ after).dropWhile p = after := by
  rw [List.dropWhile_append_of_pos h.1]
  cases after with
  | nil => rfl
  | cons c after => simp [h.2 c rfl]

/-! ## Gaps -/

/-- The characters that are blanks. -/
def blankChars : List Char := [' ', '\t', '\r']

/-- The blanks are listed. -/
theorem mem_blankChars {c : Char} (h : isBlank c = true) : c ∈ blankChars := by
  simpa [isBlank, blankChars, or_assoc] using h

/-- The text means nothing: it is made of blanks, and of a comment that goes on to the end of its
line. -/
inductive IsGap (after : List Char) : List Char → Prop
  | blanks {text} : (∀ c ∈ text, isBlank c = true) → IsGap after text
  | comment {text body} : (∀ c ∈ text, isBlank c = true) → '\n' ∉ body →
      (∀ c ∈ after.head?, c = '\n') → IsGap after (text ++ '#' :: body)

/-- What is skipped between tokens is a gap. -/
theorem exists_isGap (cs : List Char) : ∃ after, cs = gap cs ++ after ∧ IsGap after (gap cs) := by
  have blanks : ∀ c ∈ cs.takeWhile isBlank, isBlank c = true :=
    List.all_eq_true.1 List.all_takeWhile
  have whole : cs.takeWhile isBlank ++ cs.dropWhile isBlank = cs := List.takeWhile_append_dropWhile
  unfold gap
  split
  · rename_i rest hd
    have line : restOfLine ('#' :: rest) = '#' :: restOfLine rest := by simp [restOfLine]
    obtain ⟨inside, ends⟩ := maximalRun_takeWhile (· ≠ '\n') rest
    have body : '\n' ∉ restOfLine rest := fun h => by simpa using inside _ h
    have ends : ∀ c ∈ (rest.dropWhile (· ≠ '\n')).head?, c = '\n' := fun c hc => by
      simpa using ends c hc
    refine ⟨rest.dropWhile (· ≠ '\n'), ?_, ?_⟩
    · rw [line, List.append_assoc, List.cons_append, restOfLine,
        List.takeWhile_append_dropWhile, ← hd, whole]
    · rw [line]
      exact .comment blanks body ends
  · exact ⟨_, whole.symm, .blanks blanks⟩

/-- A gap is what is skipped where it stands, if neither a blank nor a comment comes after it. -/
theorem IsGap.gap_append {text after : List Char} (h : IsGap after text)
    (ends : ∀ c ∈ after.head?, isBlank c = false ∧ c ≠ '#') : gap (text ++ after) = text := by
  cases h with
  | blanks hb =>
    have run : MaximalRun isBlank text after := ⟨hb, fun c hc => (ends c hc).1⟩
    rw [gap, run.takeWhile_append, run.dropWhile_append]
    split
    · exact absurd rfl (ends '#' rfl).2
    · rfl
  | @comment blanks body hb hn he =>
    have run : MaximalRun isBlank blanks ('#' :: (body ++ after)) := by
      refine ⟨hb, ?_⟩
      rintro c ⟨⟩
      decide
    have line : MaximalRun (· ≠ '\n') ('#' :: body) after := by
      refine ⟨?_, fun c hc => by simp [he c hc]⟩
      rintro c hc
      rcases List.mem_cons.1 hc with rfl | hc
      · decide
      · exact decide_eq_true fun heq => hn (heq ▸ hc)
    have comment := line.takeWhile_append
    rw [List.append_assoc, List.cons_append, gap, run.takeWhile_append, run.dropWhile_append]
    rw [List.cons_append] at comment
    exact congrArg (blanks ++ ·) comment

/-- If neither a blank nor a number sign is of some class, what is of the class begins no gap. -/
theorem outside_gap {p : Char → Bool} {c : Char} (hp : ('#' :: blankChars).any p = false)
    (hc : p c = true) : isBlank c = false ∧ c ≠ '#' := by
  rw [List.any_eq_false] at hp
  constructor
  · rw [Bool.eq_false_iff]
    exact fun hb => hp c (List.mem_cons_of_mem _ (mem_blankChars hb)) hc
  · rintro rfl
    exact hp _ List.mem_cons_self hc

/-! ## Lexemes -/

/-- The text between two `quote` characters stands for `v`. Every quote in it is escaped. -/
inductive Quoted (quote : Char) : List Char → List Char → Prop
  | nil : Quoted quote [] []
  | plain {c text v} : c ≠ quote → c ≠ '\\' → Quoted quote text v →
      Quoted quote (c :: text) (c :: v)
  | escaped {d text v} : Quoted quote text v →
      Quoted quote ('\\' :: d :: text) (unescape d ++ v)

/-- The text is the lexeme of the token, where the characters `after` come after it and a token of
the kind `previous` is the last one before it. -/
inductive Lexeme (keywords : KeywordTable) (r : Radix) (previous : Option Kind)
    (after : List Char) : Token → List Char → Prop
  | number {c text x start} : (c.isDigit || c = '.') = true →
      MaximalRun r.isNumeral (c :: text) after → r.number (c :: text) start.offset = .ok x →
      Lexeme keywords r previous after ⟨.number, .number x, start⟩ (c :: text)
  | keyword {c text kind start} : isWordStart c = true → MaximalRun isWordPart (c :: text) after →
      keywords.lookup (String.ofList (c :: text)) = some kind →
      Lexeme keywords r previous after ⟨kind, .text (String.ofList (c :: text)), start⟩ (c :: text)
  | truth {c text b start} : isWordStart c = true → MaximalRun isWordPart (c :: text) after →
      keywords.lookup (String.ofList (c :: text)) = none →
      boolWords.lookup (String.ofList (c :: text)) = some b →
      Lexeme keywords r previous after ⟨.bool, .bool b, start⟩ (c :: text)
  | name {c text start} : isWordStart c = true → MaximalRun isWordPart (c :: text) after →
      keywords.lookup (String.ofList (c :: text)) = none →
      boolWords.lookup (String.ofList (c :: text)) = none →
      Lexeme keywords r previous after ⟨.ident, .text (String.ofList (c :: text)), start⟩
        (c :: text)
  | string {quote text v start} : isQuote quote = true → Quoted quote text v →
      Lexeme keywords r previous after ⟨.string, .text (String.ofList v), start⟩
        (quote :: text ++ [quote])
  | op {lexeme o start} : (lexeme, o) ∈ Operator.lexemes →
      (∀ e ∈ Operator.lexemes, e.1 <+: lexeme ++ after → e.1.length ≤ lexeme.length) →
      Lexeme keywords r previous after
        ⟨.op (o.inContext previous), .text (String.ofList lexeme), start⟩ lexeme

/-- A string that is scanned is quoted, with an unescaped quote at its end. -/
theorem quoted_of_literalBody {quote : Char} {cs v : List Char}
    (h : (literalBody quote cs).text = some v) :
    ∃ text after, (literalBody quote cs).taken = text ++ [quote] ∧ cs = text ++ quote :: after ∧
      Quoted quote text v := by
  fun_induction literalBody quote cs generalizing v with
  | case1 | case4 => cases h
  | case2 rest =>
    cases h
    exact ⟨[], rest, rfl, rfl, .nil⟩
  | case3 c rest hq hb ih =>
    obtain ⟨w, hw, rfl⟩ := Option.map_eq_some_iff.1 h
    obtain ⟨text, after, taken, rfl, quoted⟩ := ih hw
    exact ⟨c :: text, after, by simp [LiteralBody.push, taken], rfl,
      .plain hq hb quoted⟩
  | case5 c hq hb d rest ih =>
    obtain ⟨w, hw, rfl⟩ := Option.map_eq_some_iff.1 h
    obtain ⟨text, after, taken, rfl, quoted⟩ := ih hw
    obtain rfl : c = '\\' := by simpa using hb
    exact ⟨'\\' :: d :: text, after, by simp [LiteralBody.push, taken], rfl, .escaped quoted⟩

/-- What is quoted is scanned as a string, up to the first unescaped quote. -/
theorem literalBody_of_quoted {quote : Char} (hq : quote ≠ '\\') {text v : List Char}
    (h : Quoted quote text v) (after : List Char) :
    literalBody quote (text ++ quote :: after) = ⟨text ++ [quote], some v⟩ := by
  induction h with
  | nil => simp [literalBody.eq_def]
  | plain hc hb _ ih =>
    rw [List.cons_append, literalBody.eq_def]
    simp [hc, hb, ih, LiteralBody.push]
  | escaped _ ih =>
    rw [List.cons_append, List.cons_append, literalBody.eq_def]
    simp [hq.symm, ih, LiteralBody.push]

/-- The operator that is found is the one with the longest spelling that stands next. -/
theorem longest_of_leadingOperator? {cs lexeme : List Char} {o : Operator}
    (h : leadingOperator? cs = some (lexeme, o)) :
    (lexeme, o) ∈ Operator.lexemes ∧ ∃ after, cs = lexeme ++ after ∧
      ∀ e ∈ Operator.lexemes, e.1 <+: lexeme ++ after → e.1.length ≤ lexeme.length := by
  obtain ⟨longer, n, shorter, lengths, hn, none⟩ := List.findSome?_eq_some_iff.1 h
  obtain ⟨p, hp, he⟩ := Option.map_eq_some_iff.1 hn
  cases he
  refine ⟨?_, cs.drop n, (List.take_append_drop ..).symm, fun e he hpre => ?_⟩
  · obtain ⟨l₁, l₂, hl, -⟩ := List.lookup_eq_some_iff.1 hp
    rw [hl]
    simp
  rw [List.take_append_drop] at hpre
  have length : ∀ e ∈ Operator.lexemes, e.1.length ∈ [3, 2, 1] := by decide
  have sorted : [3, 2, 1].Pairwise (· > ·) := by decide
  have hlen := length e he
  rw [lengths] at hlen sorted
  obtain ⟨-, shorter_lt, -⟩ := List.pairwise_append.1 sorted
  have le : e.1.length ≤ n := by
    rcases List.mem_append.1 hlen with hlen | hlen
    · -- A longer spelling would have been found before.
      have unknown := Option.map_eq_none_iff.1 (none _ hlen)
      rw [← List.prefix_iff_eq_take.1 hpre, List.lookup_eq_none_iff] at unknown
      exact absurd rfl (bne_iff_ne.1 (unknown e he))
    rcases List.mem_cons.1 hlen with hlen | hlen
    · exact Nat.le_of_eq hlen
    · exact Nat.le_of_lt ((List.pairwise_cons.1 shorter_lt).1 _ hlen)
  rw [List.length_take]
  exact Nat.le_min.2 ⟨le, hpre.length_le⟩

/-- What stands next and does not hold a character stands before that character. -/
theorem prefix_of_not_mem {c : Char} {lexeme text after : List Char}
    (h : lexeme <+: text ++ c :: after) (hc : c ∉ lexeme) : lexeme <+: text := by
  rcases List.prefix_or_prefix_of_prefix h (List.prefix_append text _) with h' | ⟨rest, rfl⟩
  · exact h'
  rw [List.prefix_append_right_inj] at h
  cases rest with
  | nil => simp
  | cons d rest =>
    obtain ⟨rfl, -⟩ := List.cons_prefix_cons.1 h
    simp at hc

/-- The operator with the longest spelling that stands next is found. -/
theorem leadingOperator?_of_longest {lexeme after : List Char} {o : Operator}
    (h : (lexeme, o) ∈ Operator.lexemes)
    (longest : ∀ e ∈ Operator.lexemes, e.1 <+: lexeme ++ after → e.1.length ≤ lexeme.length) :
    leadingOperator? (lexeme ++ after) = some (lexeme, o) := by
  have all : ∀ e ∈ Operator.lexemes, Operator.lexemes.lookup e.1 = some e.2 ∧
      e.1.length ∈ [3, 2, 1] := by decide
  obtain ⟨known, length⟩ := all _ h
  have found : (leadingOperator? (lexeme ++ after)).isSome := by
    rw [leadingOperator?, List.isSome_findSome?, List.any_eq_true]
    refine ⟨_, length, ?_⟩
    rw [List.take_left, known]
    rfl
  obtain ⟨⟨lexeme', o'⟩, found⟩ := Option.isSome_iff_exists.1 found
  obtain ⟨mem, after', split, longest'⟩ := longest_of_leadingOperator? found
  have same : lexeme'.length = lexeme.length :=
    Nat.le_antisymm (longest _ mem (split ▸ List.prefix_append ..))
      (longest' _ h (split ▸ List.prefix_append ..))
  obtain ⟨rfl, -⟩ := List.append_inj split same.symm
  cases (all _ mem).1.symm.trans known
  exact found

/-- A word begins with a character that can stand in words. -/
theorem isWordPart_of_isWordStart {c : Char} (h : isWordStart c = true) : isWordPart c = true := by
  simp only [isWordStart, isWordPart, Bool.or_eq_true] at h ⊢
  rcases h with h | h <;> simp [h]

/-- A word starts where its scan begins. -/
theorem start_wordToken (keywords : KeywordTable) (start : Location) (word : String) :
    (wordToken keywords start word).start = start := by
  unfold wordToken
  split
  · rfl
  split <;> rfl

/-- A run of the characters of words is the lexeme of the token that the tables say. -/
theorem lexeme_wordToken {keywords : KeywordTable} {r : Radix} {previous : Option Kind}
    {start : Location} {c : Char} {text after : List Char} (hc : isWordStart c = true)
    (run : MaximalRun isWordPart (c :: text) after) :
    Lexeme keywords r previous after (wordToken keywords start (String.ofList (c :: text)))
      (c :: text) := by
  unfold wordToken
  split
  · rename_i kind hk
    exact .keyword hc run hk
  rename_i hk
  split
  · rename_i b hb
    exact .truth hc run hk hb
  · rename_i hb
    exact .name hc run hk hb

namespace Scan
variable {keywords : KeywordTable} {r : Radix} {previous : Option Kind} {start : Location}
  {cs : List Char} {c : Char}

/-- If the scan makes a token it takes the lexeme of the token, which `cs` begins with. -/
def Cuts (scan : Scan) (keywords : KeywordTable) (r : Radix) (previous : Option Kind)
    (start : Location) (cs : List Char) : Prop :=
  ∀ t, scan.outcome = .ok t → t.start = start ∧
    ∃ after, cs = scan.taken ++ after ∧ Lexeme keywords r previous after t scan.taken

/-- The scan of a numeral cuts off a lexeme, or fails. -/
theorem cuts_numeral (hc : (c.isDigit || c = '.') = true) :
    (numeral r start (c :: cs)).Cuts keywords r previous start (c :: cs) := by
  intro t h
  have run := maximalRun_takeWhile r.isNumeral (c :: cs)
  simp only [numeral] at h ⊢
  cases hx : r.number ((c :: cs).takeWhile r.isNumeral) start.offset with
  | error e => simp [hx, Except.map] at h
  | ok x =>
    obtain rfl : ⟨.number, .number x, start⟩ = t := by simpa [hx, Except.map] using h
    refine ⟨rfl, _, List.takeWhile_append_dropWhile.symm, ?_⟩
    have part : r.isNumeral c = true := Decidable.byContradiction fun hn =>
      Radix.ne_nil_of_number hx (List.takeWhile_cons_of_neg hn)
    rw [List.takeWhile_cons_of_pos part] at hx run ⊢
    exact .number hc run hx

/-- The scan of a word cuts off a lexeme. -/
theorem cuts_word (hc : isWordStart c = true) :
    (word keywords start (c :: cs)).Cuts keywords r previous start (c :: cs) := by
  rintro t ⟨⟩
  have run := maximalRun_takeWhile isWordPart (c :: cs)
  have whole : c :: cs = (c :: cs).takeWhile isWordPart ++ (c :: cs).dropWhile isWordPart :=
    List.takeWhile_append_dropWhile.symm
  simp only [word]
  rw [List.takeWhile_cons_of_pos (isWordPart_of_isWordStart hc)] at run whole ⊢
  exact ⟨start_wordToken .., _, whole, lexeme_wordToken hc run⟩

/-- The scan of a string cuts off a lexeme, or fails. -/
theorem cuts_literal (hc : isQuote c = true) :
    (literal start c cs).Cuts keywords r previous start (c :: cs) := by
  intro t h
  simp only [literal] at h ⊢
  split at h
  · rename_i v hv
    cases h
    obtain ⟨text, after, taken, rfl, quoted⟩ := quoted_of_literalBody hv
    rw [taken]
    exact ⟨rfl, after, by simp, .string hc quoted⟩
  · cases h

/-- The scan of an operator cuts off a lexeme. -/
theorem cuts_operator? {scan : Scan} (h : operator? previous start cs = some scan) :
    scan.Cuts keywords r previous start cs := by
  obtain ⟨⟨lexeme, o⟩, ho, rfl⟩ := Option.map_eq_some_iff.1 h
  obtain ⟨mem, after, hcs, longest⟩ := longest_of_leadingOperator? ho
  rintro t ⟨⟩
  exact ⟨rfl, after, hcs, .op mem longest⟩

/-- A scan that makes a token takes its lexeme. -/
theorem cuts_token (hc : cs ≠ []) :
    (token keywords r previous start cs).Cuts keywords r previous start cs := by
  obtain ⟨c, rest, rfl⟩ := List.exists_cons_of_ne_nil hc
  simp only [token]
  split
  · exact cuts_numeral ‹_›
  split
  · exact cuts_word ‹_›
  split
  · exact cuts_literal ‹_›
  split
  · exact cuts_operator? ‹_›
  · rintro t ⟨⟩

/-- No word begins with a character of another class. -/
theorem toNat_of_isWordStart (h : isWordStart c = true) : 65 ≤ c.toNat := by
  rcases Nat.lt_or_ge c.toNat 65 with lt | ge
  · exfalso
    have letter : Unicode.isLetter c = false := by
      rw [Unicode.isLetter, Unicode.letterRanges, Unicode.inRanges, if_pos lt]
    have low : c = '_' := by simpa [isWordStart, letter] using h
    rw [low] at lt
    exact absurd lt (by decide)
  · exact ge

/-- Where a character stands next that can begin a word, one is scanned. -/
theorem token_word (hc : isWordStart c = true) :
    token keywords r previous start (c :: cs) = word keywords start (c :: cs) := by
  have ge := toNat_of_isWordStart hc
  have digit : c.isDigit = false := by
    rw [Bool.eq_false_iff]
    intro hd
    simp only [Char.isDigit, Bool.and_eq_true, decide_eq_true_eq] at hd
    have le : c.toNat ≤ 57 := UInt32.le_iff_toNat_le.1 hd.2
    omega
  have point : decide (c = '.') = false := by
    rw [decide_eq_false_iff_not]
    rintro rfl
    exact absurd ge (by decide)
  simp only [token, digit, point, hc]
  rfl

/-- Where a quote stands next, a literal is scanned. -/
theorem token_quote (hc : isQuote c = true) :
    token keywords r previous start (c :: cs) = literal start c cs := by
  simp only [isQuote, Bool.or_eq_true, decide_eq_true_eq] at hc
  rcases hc with rfl | rfl <;> rfl

/-- Where the spelling of an operator stands next, an operator is scanned. -/
theorem token_operator {lexeme after : List Char} {o : Operator}
    (h : (lexeme, o) ∈ Operator.lexemes)
    (found : leadingOperator? (lexeme ++ after) = some (lexeme, o)) :
    token keywords r previous start (lexeme ++ after) =
      ⟨lexeme, .ok ⟨.op (o.inContext previous), .text (String.ofList lexeme), start⟩⟩ := by
  have all : ∀ e ∈ Operator.lexemes, e.1.head?.any fun c =>
      !(c.isDigit || c = '.') && !isWordStart c && !isQuote c := by decide
  have first := all _ h
  cases lexeme with
  | nil => cases first
  | cons c cs =>
    simp only [List.head?_cons, Option.any_some, Bool.and_eq_true, Bool.not_eq_true'] at first
    obtain ⟨⟨digit, word⟩, quote⟩ := first
    rw [List.cons_append] at found ⊢
    simp only [token, digit, word, quote, operator?, found]
    rfl

end Scan

/-- A numeral has its number at every position. -/
theorem Radix.number_of_number {r : Radix} {text : List Char} {pos pos' : Int} {x : Binary64}
    (h : r.number text pos = .ok x) : r.number text pos' = .ok x := by
  unfold number at h ⊢
  cases hr : r.read text with
  | ok m => rw [hr] at h; exact h
  | error e => rw [hr] at h; cases h

namespace Lexeme
variable {keywords : KeywordTable} {r : Radix} {previous : Option Kind} {text after : List Char}
  {t : Token}

/-- It does not matter where a token stands. -/
theorem at_ (h : Lexeme keywords r previous after t text) (start : Location) :
    Lexeme keywords r previous after ⟨t.kind, t.value, start⟩ text := by
  cases h with
  | number hc run hx => exact .number hc run (Radix.number_of_number hx)
  | keyword hc run hk => exact .keyword hc run hk
  | truth hc run hk hb => exact .truth hc run hk hb
  | name hc run hk hb => exact .name hc run hk hb
  | string hq quoted => exact .string hq quoted
  | op mem longest => exact .op mem longest

/-- No lexeme begins like a gap. -/
theorem first (h : Lexeme keywords r previous after t text) :
    ∃ c cs, text = c :: cs ∧ isBlank c = false ∧ c ≠ '#' := by
  cases h with
  | number hc => exact ⟨_, _, rfl, outside_gap (p := fun c => c.isDigit || c = '.') (by decide) hc⟩
  | keyword hc | truth hc | name hc => exact ⟨_, _, rfl, outside_gap (by decide) hc⟩
  | string hq => exact ⟨_, _, rfl, outside_gap (by decide) hq⟩
  | op mem =>
    have all : ∀ e ∈ Operator.lexemes, e.1.head?.any fun c => !isBlank c && c ≠ '#' := by decide
    have begins := all _ mem
    cases text with
    | nil => cases begins
    | cons c cs => exact ⟨c, cs, rfl, by simpa using begins⟩

/-- A lexeme is scanned as its token. -/
theorem scan (h : Lexeme keywords r previous after t text) :
    Scan.token keywords r previous t.start (text ++ after) = ⟨text, .ok t⟩ := by
  cases h with
  | number hc run hx =>
    rw [List.cons_append, Scan.token, if_pos hc, Scan.numeral, ← List.cons_append,
      run.takeWhile_append]
    simp only [hx]
    rfl
  | keyword hc run hk =>
    rw [List.cons_append, Scan.token_word hc, Scan.word, ← List.cons_append, run.takeWhile_append]
    simp only [wordToken, hk]
  | truth hc run hk hb =>
    rw [List.cons_append, Scan.token_word hc, Scan.word, ← List.cons_append, run.takeWhile_append]
    simp only [wordToken, hk, hb]
  | name hc run hk hb =>
    rw [List.cons_append, Scan.token_word hc, Scan.word, ← List.cons_append, run.takeWhile_append]
    simp only [wordToken, hk, hb]
  | string hq quoted =>
    have slash : ∀ {c}, isQuote c = true → c ≠ '\\' := by
      rintro c hc rfl
      cases hc
    rw [List.append_assoc, List.cons_append, Scan.token_quote hq, Scan.literal, List.cons_append,
      List.nil_append, literalBody_of_quoted (slash hq) quoted]
    rfl
  | op mem longest => exact Scan.token_operator mem (leadingOperator?_of_longest mem longest)

end Lexeme

end Quill
