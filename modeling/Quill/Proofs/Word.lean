import Mathlib.Data.List.Forall2
import Quill.Proofs.Feed

/-!
# Words

A word is what a token says, its place aside, and `Spells text word` tells the texts that the word
is written as. Where a blank or nothing comes after it, the text is a lexeme of the word
(`Spells.lexeme`), and so the word is read back as it is. Only for the signs does it matter what
stands before them (`Fit`).
-/

namespace Quill

open TokenReader

/-- What a token says, its place aside. -/
structure Word where
  /-- What the token is. -/
  kind : Kind
  /-- What the token carries. -/
  value : Value
  deriving DecidableEq

/-- The word of a token. -/
def Token.word (t : Token) : Word := ⟨t.kind, t.value⟩

/-- The word of a token at the end of the input. -/
def Word.endOfInput : Word := ⟨.eof, .text "EOF"⟩

/-! ## Spelling -/

/-- Whether the text is a numeral: digits with at most one point among, before or after them. -/
def Radix.WellFormed (r : Radix) (text : List Char) : Prop :=
  ∃ whole fraction, whole ++ fraction ≠ [] ∧ (∀ c ∈ whole ++ fraction, r.isDigit c = true) ∧
    (text = whole ∧ fraction = [] ∨ text = whole ++ '.' :: fraction)

/-- Whether a text that stands between two `quote` characters stands for `v`. -/
inductive Escapes (quote : Char) : List Char → List Char → Prop
  | nil : Escapes quote [] []
  | plain {c text v} : c ≠ quote → c ≠ '\\' → Escapes quote text v →
      Escapes quote (c :: text) (c :: v)
  | escaped {c d text v} : unescape d = [c] → Escapes quote text v →
      Escapes quote ('\\' :: d :: text) (c :: v)

/-- Whether a word is a name: it looks like one, and is neither reserved nor a truth value. -/
def IsName (name : String) : Prop :=
  (∃ c cs, name.toList = c :: cs ∧ isWordStart c = true) ∧
    (∀ c ∈ name.toList, isWordPart c = true) ∧
    KeywordTable.standard.lookup name = none ∧ boolWords.lookup name = none

instance (name : String) : Decidable (IsName name) :=
  decidable_of_iff
    (name.toList.head?.any isWordStart = true ∧ name.toList.all isWordPart = true ∧
      KeywordTable.standard.lookup name = none ∧ boolWords.lookup name = none) <| by
    unfold IsName
    cases name.toList <;> simp

/-- The text is one way to write the word. -/
inductive Spells : List Char → Word → Prop
  | numeral {text x} : Radix.decimal.WellFormed text → Radix.decimal.number text 0 = .ok x →
      Spells text ⟨.number, .number x⟩
  | string {quote text v} : isQuote quote = true → Escapes quote text v →
      Spells (quote :: text ++ [quote]) ⟨.string, .text (String.ofList v)⟩
  | bool {text b} : (text, b) ∈ boolWords → Spells text.toList ⟨.bool, .bool b⟩
  | name {name} : IsName name → Spells name.toList ⟨.ident, .text name⟩
  | keyword (k : Keyword) : Spells k.word.toList ⟨.keyword k, .text k.word⟩
  | op {lexeme o} (previous : Option Kind) : (lexeme, o) ∈ Operator.lexemes →
      Spells lexeme ⟨.op (o.inContext previous), .text (String.ofList lexeme)⟩

/-! ## Signs -/

/-- Whether a token of the kind is the last one of an operand. -/
def EndsOperand (previous : Option Kind) : Prop :=
  previous.any (· ∈ Kind.beforeBinary) = true

instance (previous : Option Kind) : Decidable (EndsOperand previous) :=
  inferInstanceAs (Decidable (_ = true))

/-- Whether a sign can stand after a token of the kind `previous`, or at the beginning: it joins two
operands after the end of an operand, and nowhere else. -/
def SignFits (previous : Option Kind) (kind : Kind) : Prop :=
  (EndsOperand previous → kind ≠ .op .pos ∧ kind ≠ .op .neg) ∧
    (¬EndsOperand previous → kind ≠ .op .add ∧ kind ≠ .op .sub)

/-- A token that is spelled like no sign fits everywhere. -/
theorem signFits_of_not_mem {previous : Option Kind} {k : Kind}
    (h : k ∉ [Operator.add, .sub, .pos, .neg].map Kind.op) : SignFits previous k := by
  constructor <;> intro _ <;> constructor <;> rintro rfl <;> exact h (by decide)

/-- Whether no sign stands where it would be taken for the other one, after a token of the kind
`previous` or at the beginning. -/
def Fit : Option Kind → List Word → Prop
  | _, [] => True
  | previous, w :: ws => SignFits previous w.kind ∧ Fit (some w.kind) ws

/-! ## Reading words -/

/-- What can stand after a word: a blank or nothing. -/
def Apart (after : List Char) : Prop := ∀ c ∈ after.head?, isBlank c = true

/-- Characters that fit are a maximal run before what stands apart. -/
theorem maximalRun_of_apart {p : Char → Bool} {text after : List Char}
    (ht : ∀ c ∈ text, p c = true) (hp : blankChars.any p = false) (ha : Apart after) :
    MaximalRun p text after := by
  refine ⟨ht, fun c hc => ?_⟩
  rw [Bool.eq_false_iff]
  exact List.any_eq_false.1 hp c (mem_blankChars (ha c hc))

/-- A well-formed numeral is made of digits and points. -/
theorem Radix.isNumeral_of_wellFormed {r : Radix} {text : List Char} (h : r.WellFormed text) :
    ∀ c ∈ text, r.isNumeral c = true := by
  rcases h with ⟨whole, fraction, -, hd, ⟨rfl, -⟩ | rfl⟩
  · intro c hc
    exact isNumeral_of_isDigit (hd c (by simp [hc]))
  · intro c hc
    obtain hc | rfl | hc : c ∈ whole ∨ c = '.' ∨ c ∈ fraction := by simpa using hc
    · exact isNumeral_of_isDigit (hd c (by simp [hc]))
    · simp [isNumeral]
    · exact isNumeral_of_isDigit (hd c (by simp [hc]))

/-- A way of writing a text as a string is quoted as that text. -/
theorem Escapes.quoted {quote : Char} {text v : List Char} (h : Escapes quote text v) :
    Quoted quote text v := by
  induction h with
  | nil => exact .nil
  | plain hc hb _ ih => exact .plain hc hb ih
  | @escaped c d text v hd _ ih =>
    have whole : Quoted quote ('\\' :: d :: text) (unescape d ++ v) := .escaped ih
    rw [hd] at whole
    exact whole

/-- No blank is part of an operator, so one that stands apart is as long as can be. -/
theorem longest_of_apart {lexeme after : List Char} (ha : Apart after) :
    ∀ e ∈ Operator.lexemes, e.1 <+: lexeme ++ after → e.1.length ≤ lexeme.length := by
  have all : ∀ e ∈ Operator.lexemes, e.1.any isBlank = false := by decide
  intro e he h
  cases after with
  | nil => simpa using h.length_le
  | cons c after =>
    refine (prefix_of_not_mem h fun hc => ?_).length_le
    exact List.any_eq_false.1 (all e he) c hc (ha c rfl)

/-- A word that stands apart is the lexeme of the token that the tables say. -/
theorem lexeme_of_isWord {word : String} {after : List Char} (previous : Option Kind)
    (start : Location) (hs : ∃ c cs, word.toList = c :: cs ∧ isWordStart c = true)
    (hp : ∀ c ∈ word.toList, isWordPart c = true) (ha : Apart after) :
    Lexeme .standard .decimal previous after (wordToken .standard start word) word.toList := by
  obtain ⟨c, cs, hw, hc⟩ := hs
  have whole : String.ofList (c :: cs) = word := by rw [← hw, String.ofList_toList]
  have run := maximalRun_of_apart hp (by decide) ha
  rw [hw] at run ⊢
  rw [← whole]
  exact lexeme_wordToken hc run

/-- What stands before an operator matters for the signs alone, and these tell what it was. -/
theorem Operator.inContext_eq {o : Operator} {p previous : Option Kind}
    (h : SignFits previous (.op (o.inContext p))) : o.inContext previous = o.inContext p := by
  unfold SignFits EndsOperand at h
  unfold inContext at h ⊢
  by_cases hp : p.any (· ∈ Kind.beforeBinary) = true <;>
    by_cases hq : previous.any (· ∈ Kind.beforeBinary) = true <;>
    cases o <;> simp_all

/-- The digits of radix ten are the decimal digits. -/
theorem Radix.isDigit_of_decimal {c : Char} (h : Radix.decimal.isDigit c = true) :
    c.isDigit = true := by
  obtain ⟨d, hd, lt⟩ := exists_digitValue? h
  have lt : d < 10 := lt
  unfold digitValue? at hd
  split at hd
  · rename_i hc
    rw [Char.isDigit, Bool.and_eq_true, decide_eq_true_eq, decide_eq_true_eq]
    exact hc
  split at hd
  · rename_i hc
    have ge : 97 ≤ c.toNat := hc.1
    cases hd
    omega
  split at hd
  · rename_i hc
    have ge : 65 ≤ c.toNat := hc.1
    cases hd
    omega
  · cases hd

/-- A numeral begins with a digit or a point. -/
theorem Radix.WellFormed.first {c : Char} {cs : List Char}
    (h : Radix.decimal.WellFormed (c :: cs)) : (c.isDigit || c = '.') = true := by
  have hc := Radix.isNumeral_of_wellFormed h c List.mem_cons_self
  simp only [Radix.isNumeral, Bool.or_eq_true, decide_eq_true_eq] at hc
  rcases hc with rfl | hc
  · rfl
  · simp [Radix.isDigit_of_decimal hc]

/-- A word that stands apart and fits is a lexeme. -/
theorem Spells.lexeme {text after : List Char} {w : Word} {previous : Option Kind}
    {start : Location} (h : Spells text w) (ha : Apart after) (hs : SignFits previous w.kind) :
    Lexeme .standard .decimal previous after ⟨w.kind, w.value, start⟩ text := by
  cases h with
  | numeral hw hx =>
    have run := maximalRun_of_apart (Radix.isNumeral_of_wellFormed hw) (by decide) ha
    obtain ⟨c, cs, rfl⟩ := List.exists_cons_of_ne_nil (Radix.ne_nil_of_number hx)
    exact .number hw.first run (Radix.number_of_number hx)
  | string hq he => exact .string hq he.quoted
  | bool hb =>
    simp only [boolWords, List.mem_cons, List.not_mem_nil, or_false, Prod.mk.injEq] at hb
    rcases hb with ⟨rfl, rfl⟩ | ⟨rfl, rfl⟩
    · have parts : "true".toList.all isWordPart = true := by decide
      exact lexeme_of_isWord previous start ⟨'t', _, rfl, by decide⟩ (List.all_eq_true.1 parts) ha
    · have parts : "false".toList.all isWordPart = true := by decide
      exact lexeme_of_isWord previous start ⟨'f', _, rfl, by decide⟩ (List.all_eq_true.1 parts) ha
  | name hn =>
    obtain ⟨begins, parts, reserved, truth⟩ := hn
    have word := lexeme_of_isWord previous start begins parts ha
    rw [wordToken, reserved, truth] at word
    exact word
  | keyword k =>
    have first : ∃ c cs, k.word.toList = c :: cs ∧ isWordStart c = true := by
      cases k <;> exact ⟨_, _, rfl, by decide⟩
    have parts : k.word.toList.all isWordPart = true := by
      cases k <;> decide
    have reserved : KeywordTable.standard.lookup k.word = some (.keyword k) := by
      cases k <;> decide
    have word := lexeme_of_isWord previous start first (List.all_eq_true.1 parts) ha
    rw [wordToken, reserved] at word
    exact word
  | op p hl =>
    rw [← Operator.inContext_eq hs]
    exact .op hl (longest_of_apart ha)

end Quill
