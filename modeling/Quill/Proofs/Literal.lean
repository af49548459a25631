import Quill.Proofs.Word

/-!
# String literals

A quote closes a literal if it is not escaped, and whether it is can be seen from the text alone: it
is if an odd number of backslashes stand right before it (`UnescapedAt`). The scanner takes a
backslash together with what comes after it and never counts, so the two are compared by what
becomes of the count where a character, or a backslash and a character, is put in front of a text
(`unescapedAt_cons`, `unescapedAt_pair`). From these the scanner stops at the first quote that is
not escaped, and at the end of the text where there is none (`literalBody_cases`).

`Escapes` tells all the ways in which a text can be written as a literal. The result is
`scanLiteral_iff_unescaped`.
-/

namespace Quill

open TokenReader

/-! ## Escapes -/

/-- The characters that mean something after a backslash, each with what it stands for there. -/
def escapes : List (Char × Char) :=
  [('n', '\n'), ('t', '\t'), ('\\', '\\'), ('\x22', '\x22'), ('\x27', '\x27')]

/-- A backslash stands for itself, and for the character after it too, where that means nothing
after a backslash. -/
theorem unescape_of_not_mem {d : Char} (h : ∀ c, (d, c) ∉ escapes) : unescape d = ['\\', d] := by
  have ne : ∀ e ∈ escapes, d ≠ e.1 := by
    rintro e he rfl
    exact h e.2 he
  simp only [escapes, List.forall_mem_cons] at ne
  obtain ⟨n, t, slash, double, single, -⟩ := ne
  rw [unescape, if_neg n, if_neg t, if_neg]
  rintro (rfl | rfl | rfl)
  · exact slash rfl
  · exact double rfl
  · exact single rfl

/-- One character is all that an escape stands for if the table has it, and only then. -/
theorem unescape_eq_singleton_iff {d c : Char} : unescape d = [c] ↔ (d, c) ∈ escapes := by
  constructor
  · intro h
    by_cases known : ∃ c', (d, c') ∈ escapes
    · obtain ⟨c', mem⟩ := known
      have all : ∀ e ∈ escapes, unescape e.1 = [e.2] := by decide
      cases h.symm.trans (all _ mem)
      exact mem
    · rw [unescape_of_not_mem (not_exists.1 known)] at h
      cases h
  · have all : ∀ e ∈ escapes, unescape e.1 = [e.2] := by decide
    exact all (d, c)

/-- Every text can be written as a literal, whatever quotes enclose it. -/
theorem Escapes.exists_text {quote : Char} (hq : isQuote quote = true) (v : List Char) :
    ∃ text, Escapes quote text v := by
  induction v with
  | nil => exact ⟨[], .nil⟩
  | cons c v ih =>
    obtain ⟨text, h⟩ := ih
    by_cases special : c = quote ∨ c = '\\'
    · have self : unescape c = [c] := by
        rcases special with rfl | rfl
        · simp only [isQuote, Bool.or_eq_true, decide_eq_true_eq] at hq
          rcases hq with rfl | rfl <;> rfl
        · rfl
      exact ⟨'\\' :: c :: text, .escaped self h⟩
    · rw [not_or] at special
      exact ⟨c :: text, .plain special.1 special.2 h⟩

/-- A quote is no backslash. -/
theorem ne_backslash_of_isQuote {c : Char} (h : isQuote c = true) : c ≠ '\\' := by
  rintro rfl
  cases h

/-! ## Unescaped quotes -/

/-- How many backslashes stand right before the character with this index. -/
def backslashesBefore (cs : List Char) (i : Nat) : Nat :=
  ((cs.take i).reverse.takeWhile (· = '\\')).length

/-- A quote stands at the index and is not escaped: the backslashes right before it are pairs. -/
def UnescapedAt (quote : Char) (cs : List Char) (i : Nat) : Prop :=
  cs[i]? = some quote ∧ backslashesBefore cs i % 2 = 0

instance (quote : Char) (cs : List Char) (i : Nat) : Decidable (UnescapedAt quote cs i) :=
  inferInstanceAs (Decidable (_ ∧ _))

/-- The first quote that is not escaped stands at the index. -/
def FirstUnescapedAt (quote : Char) (cs : List Char) (i : Nat) : Prop :=
  UnescapedAt quote cs i ∧ ∀ j < i, ¬UnescapedAt quote cs j

instance (quote : Char) (cs : List Char) (i : Nat) : Decidable (FirstUnescapedAt quote cs i) :=
  inferInstanceAs (Decidable (_ ∧ _))

/-- What is counted from behind ends at a character of another kind. -/
theorem backslashesBefore_cons {c : Char} (hc : c ≠ '\\') (cs : List Char) (i : Nat) :
    backslashesBefore (c :: cs) (i + 1) = backslashesBefore cs i := by
  have stop : [c].takeWhile (· = '\\') = [] := List.takeWhile_cons_of_neg (by simpa using hc)
  unfold backslashesBefore
  rw [List.take_succ_cons, List.reverse_cons, List.takeWhile_append, stop, List.append_nil]
  split
  · rename_i whole
    exact whole.symm
  · rfl

/-- A backslash and the character after it make no difference to what is a pair: either they are
not counted or both are. -/
theorem backslashesBefore_pair (d : Char) (cs : List Char) (i : Nat) :
    backslashesBefore ('\\' :: d :: cs) (i + 2) % 2 = backslashesBefore cs i % 2 := by
  by_cases hd : d = '\\'
  · subst hd
    unfold backslashesBefore
    rw [List.take_succ_cons, List.take_succ_cons, List.reverse_cons, List.reverse_cons,
      List.append_assoc, List.takeWhile_append]
    split
    · rename_i whole
      rw [List.length_append, whole]
      exact Nat.add_mod_right ..
    · rfl
  · have stop : [d, '\\'].takeWhile (· = '\\') = [] :=
      List.takeWhile_cons_of_neg (by simpa using hd)
    unfold backslashesBefore
    rw [List.take_succ_cons, List.take_succ_cons, List.reverse_cons, List.reverse_cons,
      List.append_assoc, List.takeWhile_append]
    rw [List.singleton_append, stop, List.append_nil]
    split
    · rename_i whole
      rw [whole]
    · rfl

section
variable {quote c d : Char} {cs : List Char} {i : Nat}

/-- A character in front that is no backslash makes no difference to what is unescaped. -/
theorem unescapedAt_cons (hc : c ≠ '\\') :
    UnescapedAt quote (c :: cs) (i + 1) ↔ UnescapedAt quote cs i := by
  rw [UnescapedAt, UnescapedAt, List.getElem?_cons_succ, backslashesBefore_cons hc]

/-- Nor do a backslash and the character after it. -/
theorem unescapedAt_pair :
    UnescapedAt quote ('\\' :: d :: cs) (i + 2) ↔ UnescapedAt quote cs i := by
  rw [UnescapedAt, UnescapedAt, List.getElem?_cons_succ, List.getElem?_cons_succ,
    backslashesBefore_pair]

/-- Nothing at the beginning of a text is escaped. -/
theorem unescapedAt_zero : UnescapedAt quote (c :: cs) 0 ↔ c = quote := by
  simp [UnescapedAt, backslashesBefore]

/-- What comes after the first backslash is escaped. -/
theorem not_unescapedAt_one : ¬UnescapedAt quote ('\\' :: cs) 1 := by
  rintro ⟨-, even⟩
  cases even

/-- The empty text has no quote. -/
theorem not_unescapedAt_nil : ¬UnescapedAt quote [] i := by
  rintro ⟨h, -⟩
  cases h

/-- There is no more than one first quote that is not escaped. -/
theorem FirstUnescapedAt.unique {j : Nat} (hi : FirstUnescapedAt quote cs i)
    (hj : FirstUnescapedAt quote cs j) : i = j := by
  rcases Nat.lt_trichotomy i j with lt | eq | gt
  · exact absurd hi.1 (hj.2 i lt)
  · exact eq
  · exact absurd hj.1 (hi.2 j gt)

/-- A character that is neither quote nor backslash only moves the first unescaped quote on. -/
theorem FirstUnescapedAt.cons (hq : c ≠ quote) (hc : c ≠ '\\') (h : FirstUnescapedAt quote cs i) :
    FirstUnescapedAt quote (c :: cs) (i + 1) := by
  refine ⟨(unescapedAt_cons hc).2 h.1, fun j hj => ?_⟩
  cases j with
  | zero => exact fun first => hq (unescapedAt_zero.1 first)
  | succ j => exact fun later => h.2 j (Nat.lt_of_succ_lt_succ hj) ((unescapedAt_cons hc).1 later)

/-- A backslash and what it escapes only move the first unescaped quote on. -/
theorem FirstUnescapedAt.pair (hq : quote ≠ '\\') (h : FirstUnescapedAt quote cs i) :
    FirstUnescapedAt quote ('\\' :: d :: cs) (i + 2) := by
  refine ⟨unescapedAt_pair.2 h.1, fun j hj => ?_⟩
  rcases j with _ | _ | j
  · exact fun first => hq (unescapedAt_zero.1 first).symm
  · exact not_unescapedAt_one
  · exact fun later => h.2 j (by omega) (unescapedAt_pair.1 later)

end

/-! ## The body of a literal -/

/-- A literal goes to the first quote that is not escaped. Where there is none it takes all there is
and has no text. -/
theorem literalBody_cases {quote : Char} (hq : quote ≠ '\\') (cs : List Char) :
    (∃ i v, FirstUnescapedAt quote cs i ∧ Quoted quote (cs.take i) v ∧
      literalBody quote cs = ⟨cs.take (i + 1), some v⟩) ∨
    (∀ i, ¬UnescapedAt quote cs i) ∧ literalBody quote cs = ⟨cs, none⟩ := by
  -- What stands in front of the rest shifts the indices in it by one or, with a backslash, by two.
  fun_induction literalBody quote cs with
  | case1 => exact .inr ⟨fun i => not_unescapedAt_nil, rfl⟩
  | case2 rest =>
    have none : ∀ j < 0, ¬UnescapedAt quote (quote :: rest) j := fun j h => absurd h j.not_lt_zero
    exact .inl ⟨0, [], ⟨unescapedAt_zero.2 rfl, none⟩, .nil, rfl⟩
  | case3 c rest hne hc ih =>
    rcases ih with ⟨i, v, first, quoted, eq⟩ | ⟨none, eq⟩
    · exact .inl ⟨i + 1, c :: v, first.cons hne hc, .plain hne hc quoted, by rw [eq]; rfl⟩
    · refine .inr ⟨fun i h => ?_, by rw [eq]; rfl⟩
      cases i with
      | zero => exact hne (unescapedAt_zero.1 h)
      | succ i => exact none i ((unescapedAt_cons hc).1 h)
  | case4 c hne hc =>
    obtain rfl : c = '\\' := by simpa using hc
    refine .inr ⟨fun i h => ?_, rfl⟩
    cases i with
    | zero => exact hne (unescapedAt_zero.1 h)
    | succ i => cases h.1
  | case5 c hne hc d rest ih =>
    obtain rfl : c = '\\' := by simpa using hc
    rcases ih with ⟨i, v, first, quoted, eq⟩ | ⟨none, eq⟩
    · exact .inl ⟨i + 2, unescape d ++ v, first.pair hq, .escaped quoted, by rw [eq]; rfl⟩
    · refine .inr ⟨fun i h => ?_, by rw [eq]; rfl⟩
      rcases i with _ | _ | i
      · exact hne (unescapedAt_zero.1 h)
      · exact not_unescapedAt_one h
      · exact none i (unescapedAt_pair.1 h)

/-! ## Literals in a text -/

namespace Lexer
variable {l : Lexer} {quote : Char} {v cs : List Char}

/-- A lexer that is asked for a string takes the scan of one. -/
theorem scanLiteral_eq (rest : l.cursor.rest = quote :: cs) (start : Location) :
    scanLiteral start l = take (.literal start quote cs) l := by
  have state : (get : LexerM Lexer) l = .ok l l := rfl
  simp only [scanLiteral, bind_eq, state, rest]

/-- A literal that is closed is scanned as its text, and nothing after it is read. -/
theorem scanLiteral_of_closed {taken : List Char} (rest : l.cursor.rest = quote :: cs)
    (body : literalBody quote cs = ⟨taken, some v⟩) (start : Location) :
    scanLiteral start l =
      .ok ⟨.string, .text (String.ofList v), start⟩ (l.skip (quote :: taken)) := by
  rw [scanLiteral_eq rest]
  simp only [take, Scan.literal, body]

/-- A literal that is not closed takes what there is. -/
theorem scanLiteral_of_open {taken : List Char} (rest : l.cursor.rest = quote :: cs)
    (body : literalBody quote cs = ⟨taken, none⟩) (start : Location) :
    scanLiteral start l =
      .error (.atPosition .unterminatedString start.offset) (l.skip (quote :: taken)) := by
  rw [scanLiteral_eq rest]
  simp only [take, Scan.literal, body]

/-- Where a quote stands next, the next token is a literal. -/
theorem advance_of_quote (hq : isQuote quote = true) (rest : l.cursor.rest = quote :: cs) :
    advance l = (do
      let t ← scanLiteral l.cursor.location
      modify ({ · with current := some t })
      pure t : LexerM Token) l := by
  have no_gap : l.skipGap = l := by
    have gap_nil : gap (quote :: cs) = [] := by
      simp only [isQuote, Bool.or_eq_true, decide_eq_true_eq] at hq
      rcases hq with rfl | rfl <;> rfl
    rw [skipGap, rest, gap_nil]
    rfl
  have scan : l.nextScan = .literal l.cursor.location quote cs := by
    rw [nextScan, no_gap, rest, Scan.token_quote hq]
  rw [bind_eq, scanLiteral_eq rest]
  unfold advance take
  simp only [scan, no_gap]
  cases outcome : (Scan.literal l.cursor.location quote cs).outcome with
  | ok t => rfl
  | error e => rfl

/-- After all that is left has been taken nothing is. -/
theorem atEnd_skip_rest (l : Lexer) : (l.skip l.cursor.rest).cursor.atEnd = true := by
  have length := l.cursor.length_rest
  refine decide_eq_true ?_
  show l.cursor.source.length ≤ l.cursor.offset + l.cursor.rest.length
  omega

/-- However a text is written as a literal, the literal is read back as the text and the cursor is
right after its closing quote. Whatever stands after a quote, it is a literal up to the first quote
that is not escaped; where there is none the literal is not terminated, which is told at the place
that was given, and the cursor is at the end. The next token is what is scanned in this way. -/
theorem scanLiteral_iff_unescaped {quote : Char} (hq : isQuote quote = true) (l : Lexer)
    (start : Location) :
    (∀ v, ∃ text, Escapes quote text v) ∧
    (∀ text v after, Escapes quote text v →
      l.cursor.rest = quote :: text ++ quote :: after →
      scanLiteral start l =
        .ok ⟨.string, .text (String.ofList v), start⟩ (l.skip (quote :: text ++ [quote])) ∧
      (l.skip (quote :: text ++ [quote])).cursor.rest = after) ∧
    (∀ cs, l.cursor.rest = quote :: cs →
      ((∃ t l', scanLiteral start l = .ok t l') ↔ ∃ i, UnescapedAt quote cs i) ∧
      (∀ i, FirstUnescapedAt quote cs i → ∃ v, Quoted quote (cs.take i) v ∧
        scanLiteral start l =
          .ok ⟨.string, .text (String.ofList v), start⟩ (l.skip (quote :: cs.take (i + 1)))) ∧
      ((∀ i, ¬UnescapedAt quote cs i) →
        scanLiteral start l =
          .error (.atPosition .unterminatedString start.offset) (l.skip (quote :: cs)) ∧
        (l.skip (quote :: cs)).cursor.atEnd = true) ∧
      advance l = (do
        let t ← scanLiteral l.cursor.location
        modify ({ · with current := some t })
        pure t : LexerM Token) l) ∧
    (∀ d c, unescape d = [c] ↔ (d, c) ∈ escapes) ∧
    ∀ d, (∀ c, (d, c) ∉ escapes) → unescape d = ['\\', d] := by
  have slash := ne_backslash_of_isQuote hq
  refine ⟨Escapes.exists_text hq, fun text v after written rest => ?_, fun cs rest => ?_,
    fun _ _ => unescape_eq_singleton_iff, fun _ => unescape_of_not_mem⟩
  · have body := literalBody_of_quoted slash written.quoted after
    refine ⟨scanLiteral_of_closed rest body start, Cursor.rest_skip ?_⟩
    rw [rest]
    simp
  refine ⟨⟨fun ⟨t, l', h⟩ => ?_, fun ⟨i, h⟩ => ?_⟩, fun i first => ?_, fun none => ?_,
    advance_of_quote hq rest⟩
  · rcases literalBody_cases slash cs with ⟨i, v, first, -, -⟩ | ⟨-, body⟩
    · exact ⟨i, first.1⟩
    · cases h.symm.trans (scanLiteral_of_open rest body start)
  · rcases literalBody_cases slash cs with ⟨i, v, -, -, body⟩ | ⟨none, -⟩
    · exact ⟨_, _, scanLiteral_of_closed rest body start⟩
    · exact absurd h (none i)
  · rcases literalBody_cases slash cs with ⟨j, v, first', quoted, body⟩ | ⟨none, -⟩
    · cases first.unique first'
      exact ⟨v, quoted, scanLiteral_of_closed rest body start⟩
    · exact absurd first.1 (none i)
  · rcases literalBody_cases slash cs with ⟨i, v, first, -, -⟩ | ⟨-, body⟩
    · exact absurd first.1 (none i)
    · refine ⟨scanLiteral_of_open rest body start, ?_⟩
      rw [← rest]
      exact l.atEnd_skip_rest

/-- A pair of backslashes before a quote does not escape it, and a single one does. -/
theorem scanLiteral_iff_unescaped_backslashes :
    (∃ l, scanLiteral ⟨0, 1, 1⟩ (ofSource .standard .decimal "\"\\\\\"+") =
        .ok ⟨.string, .text "\\", ⟨0, 1, 1⟩⟩ l ∧ l.cursor.rest = ['+']) ∧
    ∃ l, scanLiteral ⟨0, 1, 1⟩ (ofSource .standard .decimal "\"a\\\"") =
        .error (.atPosition .unterminatedString 0) l ∧ l.cursor.atEnd = true := by
  have quote : isQuote '\x22' = true := by decide
  constructor
  · obtain ⟨-, written, -⟩ := scanLiteral_iff_unescaped quote
      (ofSource .standard .decimal "\"\\\\\"+") ⟨0, 1, 1⟩
    exact ⟨_, written ['\\', '\\'] ['\\'] ['+'] (.escaped rfl .nil) (by decide)⟩
  · obtain ⟨-, -, any, -⟩ := scanLiteral_iff_unescaped quote
      (ofSource .standard .decimal "\"a\\\"") ⟨0, 1, 1⟩
    obtain ⟨-, -, unclosed, -⟩ := any ['a', '\\', '\x22'] (by decide)
    refine ⟨_, unclosed fun i h => ?_⟩
    have all : ∀ i < 3, ¬UnescapedAt '\x22' ['a', '\\', '\x22'] i := by decide
    exact all i (List.getElem?_eq_some_iff.1 h.1).1 h

end Lexer

end Quill
