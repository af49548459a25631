import Quill.Fault
import Quill.Number.FreeForm
import Quill.Token.Basic
import Quill.Unicode.Letter
import Quill.Unicode.Numeral

/-!
# Scanning one token

A scanner is given the characters that follow and says which of them it takes and what it makes of
them (`Scan`). Each class of token has its own: a numeral is the longest run of points and digits,
a word the longest run of letters, number signs and low lines, a literal goes to the first
unescaped closing quote, and an operator is the longest spelling that stands next.

`Scan.token` chooses the scanner by the first character. Blanks and comments between tokens are
the `gap`. The one lemma that all termination rests on is `Scan.taken_ne_nil_of_token`: a token
other than the end takes at least one character.
-/

namespace Quill

open Unicode

/-- What a scanner did with the characters it was given. -/
structure Scan where
  /-- The characters it took, from the front. -/
  taken : List Char
  /-- The token it made of them, or why there is none. -/
  outcome : Except Fault Token

/-! ## Between tokens -/

/-- The characters that separate tokens and mean nothing. A line feed is none of them. -/
def isBlank (c : Char) : Bool := c = ' ' || c = '\t' || c = '\r'

/-- The characters up to the end of the line. -/
def restOfLine (cs : List Char) : List Char := cs.takeWhile (· ≠ '\n')

/-- The blanks that stand next, and the comment after them if there is one. A comment begins with a
number sign and leaves the end of its line. -/
def gap (cs : List Char) : List Char :=
  match cs.dropWhile isBlank with
  | '#' :: rest => cs.takeWhile isBlank ++ restOfLine ('#' :: rest)
  | _ => cs.takeWhile isBlank

/-! ## Numerals -/

/-- The fault of a text that denotes no number and is said to begin at the offset `pos`. -/
def NumeralError.toFault (r : Radix) (text : List Char) (pos : Int) : NumeralError → Fault
  | malformed => .atPosition (.malformedNumber (String.ofList text)) pos
  | tooManyDigits digits => .tooManyDigits digits
  | overflow => .numeralOverflow
  | notANumber => .notANumber (String.ofList text)
  | notAnInteger part => .notAnInteger r.base (String.ofList part)

/-- The number that a numeral denotes; a failure is reported at the offset `pos`. -/
def Radix.number (r : Radix) (text : List Char) (pos : Int) : Except Fault Binary64 :=
  match r.read text with
  | .ok m => .ok (.ofMagnitude m)
  | .error e => .error (e.toFault r text pos)

/-- The number that a text in free form denotes. -/
def Radix.numberOfText (r : Radix) (text : List Char) (pos : Int) : Except Fault Binary64 :=
  match r.readText text with
  | .ok x => .ok x
  | .error e => .error (e.toFault r text pos)

/-- A numeral. -/
def Scan.numeral (r : Radix) (start : Location) (cs : List Char) : Scan :=
  let text := cs.takeWhile r.isNumeral
  ⟨text, (r.number text start.offset).map fun x => ⟨.number, .number x, start⟩⟩

/-! ## Words -/

/-- Whether a character can begin a word. -/
def isWordStart (c : Char) : Bool := isLetter c || c = '_'

/-- Whether a character can continue a word. -/
def isWordPart (c : Char) : Bool := isLetter c || isNumeral c || c = '_'

/-- The token that a word makes: what the keyword table says, else a truth value, else a name. -/
def wordToken (keywords : KeywordTable) (start : Location) (word : String) : Token :=
  match keywords.lookup word with
  | some kind => ⟨kind, .text word, start⟩
  | none =>
    match boolWords.lookup word with
    | some b => ⟨.bool, .bool b, start⟩
    | none => ⟨.ident, .text word, start⟩

/-- A word. -/
def Scan.word (keywords : KeywordTable) (start : Location) (cs : List Char) : Scan :=
  let word := cs.takeWhile isWordPart
  ⟨word, .ok (wordToken keywords start (String.ofList word))⟩

/-! ## String literals -/

/-- Whether a character encloses literals. -/
def isQuote (c : Char) : Bool := c = '\x22' || c = '\x27'

/-- What a backslash and the character after it stand for. A backslash that escapes nothing stands
for itself. -/
def unescape (c : Char) : List Char :=
  if c = 'n' then ['\n']
  else if c = 't' then ['\t']
  else if c = '\\' ∨ c = '\x22' ∨ c = '\x27' then [c]
  else ['\\', c]

/-- The characters of a literal after its opening quote. -/
structure LiteralBody where
  /-- The characters up to the closing quote and with it, or all there are. -/
  taken : List Char
  /-- The text of the literal, if it is closed. -/
  text : Option (List Char)

/-- Puts characters in front of a literal's body, and what they stand for in front of its text. -/
def LiteralBody.push (b : LiteralBody) (taken text : List Char) : LiteralBody :=
  ⟨taken ++ b.taken, b.text.map (text ++ ·)⟩

/-- Reads a literal up to its closing quote. -/
def literalBody (quote : Char) : List Char → LiteralBody
  | [] => ⟨[], none⟩
  | c :: rest =>
    if c = quote then ⟨[c], some []⟩
    else if c ≠ '\\' then (literalBody quote rest).push [c] [c]
    else
      match rest with
      | [] => ⟨[c], none⟩
      | d :: rest => (literalBody quote rest).push [c, d] (unescape d)

/-- A string literal that begins with `quote`; `cs` are the characters after it. -/
def Scan.literal (start : Location) (quote : Char) (cs : List Char) : Scan :=
  let body := literalBody quote cs
  ⟨quote :: body.taken,
    match body.text with
    | some text => .ok ⟨.string, .text (String.ofList text), start⟩
    | none => .error (.atPosition .unterminatedString start.offset)⟩

/-! ## Operators -/

/-- The longest spelling of an operator that stands next. -/
def leadingOperator? (cs : List Char) : Option (List Char × Operator) :=
  [3, 2, 1].findSome? fun n => (Operator.lexemes.lookup (cs.take n)).map fun o => (cs.take n, o)

/-- An operator by what stands before it: a sign joins two operands after the end of an operand,
and elsewhere belongs to the operand that follows. -/
def Operator.inContext (previous : Option Kind) (o : Operator) : Operator :=
  if previous.any (· ∈ Kind.beforeBinary) then o
  else
    match o with
    | add => pos
    | sub => neg
    | o => o

/-- An operator, if one stands next. -/
def Scan.operator? (previous : Option Kind) (start : Location) (cs : List Char) : Option Scan :=
  (leadingOperator? cs).map fun (lexeme, o) =>
    ⟨lexeme, .ok ⟨.op (o.inContext previous), .text (String.ofList lexeme), start⟩⟩

/-! ## Any token -/

/-- The token at the end of the input. -/
def Token.endOfInput (start : Location) : Token := ⟨.eof, .text "EOF", start⟩

/-- The token that stands next, after the gap. -/
def Scan.token (keywords : KeywordTable) (r : Radix) (previous : Option Kind) (start : Location)
    (cs : List Char) : Scan :=
  match cs with
  | [] => ⟨[], .ok (.endOfInput start)⟩
  | c :: rest =>
    if c.isDigit || c = '.' then .numeral r start cs
    else if isWordStart c then .word keywords start cs
    else if isQuote c then .literal start c rest
    else
      match Scan.operator? previous start cs with
      | some scan => scan
      | none =>
        ⟨[], .error (.atPosition (.unexpectedCharacter (String.singleton c)) start.offset)⟩

/-! ## What a scanner takes -/

/-- What the scan of a string takes is what the text begins with. -/
theorem taken_literalBody (quote : Char) (cs : List Char) :
    ∃ after, (literalBody quote cs).taken ++ after = cs := by
  fun_induction literalBody quote cs with
  | case1 => exact ⟨[], rfl⟩
  | case2 rest => exact ⟨rest, rfl⟩
  | case3 c rest _ _ ih =>
    obtain ⟨after, h⟩ := ih
    exact ⟨after, by simp [LiteralBody.push, h]⟩
  | case4 c => exact ⟨[], rfl⟩
  | case5 c _ _ d rest ih =>
    obtain ⟨after, h⟩ := ih
    exact ⟨after, by simp [LiteralBody.push, h]⟩

/-- The text of a numeral is not empty. -/
theorem Radix.ne_nil_of_number {r : Radix} {text : List Char} {pos : Int} {x : Binary64}
    (h : r.number text pos = .ok x) : text ≠ [] := by
  rintro rfl
  simp [Radix.number, Radix.read, Radix.splitPoint] at h

/-- An operator is spelled with at least one character, and those stand next. -/
theorem leadingOperator?_eq_some {cs lexeme : List Char} {o : Operator}
    (h : leadingOperator? cs = some (lexeme, o)) : lexeme ≠ [] ∧ ∃ n, lexeme = cs.take n := by
  obtain ⟨n, _, hn⟩ := List.exists_of_findSome?_eq_some h
  obtain ⟨p, hp, he⟩ := Option.map_eq_some_iff.1 hn
  obtain ⟨rfl, rfl⟩ := Prod.mk.inj he
  refine ⟨fun hnil => ?_, n, rfl⟩
  rw [hnil, show Operator.lexemes.lookup [] = none from by decide] at hp
  cases hp

/-- A token other than the end of the input takes at least one character. -/
theorem Scan.taken_ne_nil_of_token {keywords : KeywordTable} {r : Radix} {previous : Option Kind}
    {start : Location} {cs : List Char} {t : Token}
    (h : (Scan.token keywords r previous start cs).outcome = .ok t) (ht : t.kind ≠ .eof) :
    (Scan.token keywords r previous start cs).taken ≠ [] := by
  unfold Scan.token at h ⊢
  split at h
  · cases h
    exact absurd rfl ht
  · rename_i c rest
    split at h
    · rename_i hc
      rw [if_pos hc]
      unfold Scan.numeral at h ⊢
      simp only at h ⊢
      cases hx : r.number (List.takeWhile r.isNumeral (c :: rest)) start.offset with
      | error e => rw [hx] at h; simp [Except.map] at h
      | ok x => exact Radix.ne_nil_of_number hx
    · rename_i hc
      rw [if_neg hc]
      split at h
      · rename_i hw
        rw [if_pos hw]
        have : isWordPart c = true := by
          simp only [isWordStart, isWordPart, Bool.or_eq_true] at hw ⊢
          rcases hw with hw | hw <;> simp [hw]
        simp [Scan.word, this]
      · rename_i hw
        rw [if_neg hw]
        split at h
        · rename_i hq
          rw [if_pos hq]
          simp [Scan.literal]
        · rename_i hq
          rw [if_neg hq]
          cases ho : Scan.operator? previous start (c :: rest) with
          | none => rw [ho] at h; cases h
          | some scan =>
            obtain ⟨⟨lexeme, o⟩, hl, rfl⟩ := Option.map_eq_some_iff.1 ho
            exact (leadingOperator?_eq_some hl).1

end Quill
