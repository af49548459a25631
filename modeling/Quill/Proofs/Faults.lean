import Quill.Proofs.OnDemand

/-!
# The faults that a parse can end in

A text is parsed, or the parse ends in a fault that tells something about the text
(`parse_ok_or_ofText`). All but two of these faults are diagnostics, and their position lies within
the text: what is wrong stands there (`Fault.OfText`). The other two are those of a numeral that is
not converted, which takes another radix than ten: its whole part has too many digits for one whose
base is no power of two, or no finite double is nearest to it. Of the faults of an operation that is
used wrongly none occurs.

A parse that fails has come to where no token can be read, or to a token that it rejects
(`FailsAt`). In the first case the fault is that of one scanner, and there is one lemma for each of
these. In the second the token is current, and so it was read from the text (`Lexer.ReadsWithin`).
-/

namespace Quill

open TokenReader LawfulReader

/-! ## Rounding up to infinity -/

/-- A quotient that is below the middle of two integers rounds at most to the lower one. -/
theorem divRound_le_of_lt_middle {n d q : Nat} (h : 2 * n < (2 * q + 1) * d) :
    divRound n d ≤ q := by
  have whole := Nat.div_add_mod n d
  by_cases below : n / d < q
  · exact divRound_le_of_div_lt below
  have le : d * q ≤ d * (n / d) := Nat.mul_le_mul_left d (Nat.le_of_not_lt below)
  have expand : (2 * q + 1) * d = 2 * (d * q) + d := by
    rw [Nat.add_mul, Nat.mul_assoc, Nat.mul_comm q d, Nat.one_mul]
  have lower : 2 * (n % d) < d := by omega
  have eq : n / d = q := by
    refine Nat.le_antisymm (Nat.lt_succ_iff.1 (Nat.div_lt_of_lt_mul ?_)) (Nat.le_of_not_lt below)
    rw [Nat.mul_succ]
    omega
  rw [divRound, if_pos lower]
  exact Nat.le_of_eq eq

/-- A number that is below the middle of a power of two and the greatest double before that power is
not rounded up to it. -/
theorem roundRatio_lt {n k : Nat}
    (h : 2 * n < (2 * (Nat.pow 2 precision - 1) + 1) * Nat.pow 2 k) :
    roundRatio n 1 < Nat.pow 2 precision * Nat.pow 2 k := by
  have round := divRound_le n 1
  have pos : 0 < Nat.pow 2 k := Nat.two_pow_pos k
  have one_le : 1 ≤ Nat.pow 2 precision := Nat.two_pow_pos precision
  have bits : surplusBits n 1 ≤ k := by
    have double : (2 * (Nat.pow 2 precision - 1) + 1) * Nat.pow 2 k ≤
        2 * Nat.pow 2 (precision + k) := by
      have sum : Nat.pow 2 (precision + k) = Nat.pow 2 precision * Nat.pow 2 k := Nat.pow_add ..
      rw [sum, ← Nat.mul_assoc]
      generalize Nat.pow 2 precision = m at one_le
      exact Nat.mul_le_mul_right _ (by omega)
    have below : n < Nat.pow 2 (precision + k) := by omega
    by_cases zero : n = 0
    · rw [zero]
      exact Nat.zero_le k
    · have log : Nat.log2 n < precision + k := (Nat.log2_lt zero).2 below
      rw [surplusBits, Nat.div_one]
      omega
  rw [roundRatio]
  rw [Nat.one_mul] at round ⊢
  rcases Nat.lt_or_eq_of_le bits with fewer | last
  · -- The number has fewer digits, and rounding may add one at most.
    refine Nat.lt_of_le_of_lt (Nat.mul_le_mul_right _ round) ?_
    exact Nat.mul_lt_mul_of_pos_left (Nat.pow_lt_pow_right (by decide) fewer) one_le
  · rw [last] at round ⊢
    refine Nat.mul_lt_mul_of_pos_right ?_ pos
    exact Nat.lt_of_le_of_lt (divRound_le_of_lt_middle h) (Nat.sub_one_lt_of_lt one_le)

/-- The least natural number that is nearer to two to the power of 1024 than to any finite double,
or as near. -/
def leastOverflow : Nat := Nat.pow 2 1024 - Nat.pow 2 970

/-- Only numbers from that one on are rounded up to infinity. -/
theorem leastOverflow_le {n : Nat} (h : (Magnitude.ofNat n).isInfinite = true) :
    leastOverflow ≤ n := by
  refine Decidable.byContradiction fun lt => ?_
  have middle : leastOverflow = (2 * (Nat.pow 2 precision - 1) + 1) * Nat.pow 2 970 := by
    decide +kernel
  obtain ⟨k, top, bound⟩ : ∃ k, Nat.pow 2 k = 2 * Magnitude.oneUnits * Nat.pow 2 970 ∧
      overflowUnits = Nat.pow 2 precision * Nat.pow 2 k :=
    ⟨2045, by decide +kernel, by decide +kernel⟩
  have pos : 0 < 2 * Magnitude.oneUnits := by decide +kernel
  have finite : roundRatio (n * Magnitude.oneUnits) 1 < overflowUnits := by
    rw [bound]
    refine roundRatio_lt ?_
    rw [top]
    rw [middle] at lt
    calc 2 * (n * Magnitude.oneUnits)
        = 2 * Magnitude.oneUnits * n := by rw [Nat.mul_comm n, Nat.mul_assoc]
      _ < 2 * Magnitude.oneUnits * ((2 * (Nat.pow 2 precision - 1) + 1) * Nat.pow 2 970) :=
        Nat.mul_lt_mul_of_pos_left (Nat.lt_of_not_le lt) pos
      _ = _ := Nat.mul_left_comm ..
  rw [Magnitude.ofNat, Magnitude.ofRatio, Magnitude.ofUnits, dif_pos finite] at h
  cases h

example : (Magnitude.ofNat leastOverflow).isInfinite = true := by decide +kernel

/-! ## Numerals that are not converted -/

namespace Radix
variable {r : Radix} {text : List Char}

/-- A text is refused as a numeral because it is none, or because in another radix than ten its
whole part has too many digits or is rounded up to infinity. -/
theorem read_eq_error {e : NumeralError} (h : r.read text = .error e) :
    e = .malformed ∨
      e = .tooManyDigits (splitPoint text).1.length ∧
        r.refuses (splitPoint text).1.length = true ∨
      e = .overflow ∧ r ≠ .decimal ∧ r.refuses (splitPoint text).1.length = false ∧
        leastOverflow ≤ r.value (splitPoint text).1 := by
  unfold read at h
  dsimp only at h
  split at h
  · cases h
    exact .inl rfl
  split at h
  · cases h
  rename_i hr
  split at h
  · rename_i many
    cases h
    exact .inr (.inl ⟨rfl, many⟩)
  rename_i few
  split at h
  · rename_i infinite
    cases h
    exact .inr (.inr ⟨rfl, hr, Bool.eq_false_iff.2 few, leastOverflow_le infinite⟩)
  · cases h

/-- Zero is a digit in every radix. -/
theorem isDigit_of_mem_replicate {n : Nat} {c : Char} (h : c ∈ List.replicate n '0') :
    r.isDigit c = true := by
  rw [List.eq_of_mem_replicate h]
  exact decide_eq_true (Nat.lt_of_lt_of_le Nat.two_pos r.two_le_base)

/-- Too many digits have no number in another radix than ten, not even if all are zeros. -/
theorem number_of_refuses (h : ∀ c ∈ text, r.isDigit c = true)
    (many : r.refuses text.length = true) (pos : Int) :
    r.number text pos = .error (.tooManyDigits text.length) := by
  have read : r.read text = .error (.tooManyDigits text.length) := by
    rw [Radix.read, (splitPoint_of_digits h []).1]
    dsimp only
    rw [List.append_nil, if_neg, if_neg (ne_decimal_of_refuses many), if_pos many]
    rintro (⟨rfl, -⟩ | other)
    · exact absurd (r.refuses_zero.symm.trans many) Bool.false_ne_true
    · exact other (List.all_eq_true.2 h)
  rw [number, read]
  rfl

end Radix

/-- Where a numeral that has no number is all of the text, no token can be read. -/
theorem Lexer.exists_advance_error (keywords : KeywordTable) {r : Radix} {c : Char}
    {rest : List Char} {e : Fault} (first : (c.isDigit || c = '.') = true)
    (numeral : ∀ d ∈ c :: rest, r.isNumeral d = true) (h : r.number (c :: rest) 0 = .error e) :
    ∃ l, advance (ofSource keywords r (String.ofList (c :: rest))) = .error e l := by
  have source : ofSource keywords r (String.ofList (c :: rest)) =
      (new keywords r).load (c :: rest) := by
    rw [ofSource, String.toList_ofList]
  have gap_nil : gap (c :: rest) = [] := by
    refine IsGap.gap_append (.blanks (List.forall_mem_nil _)) ?_
    rintro d ⟨⟩
    exact outside_gap (p := fun c => c.isDigit || c = '.') (by decide) first
  have start : ((new keywords r).load (c :: rest)).skipGap = (new keywords r).load (c :: rest) := by
    show ((new keywords r).load (c :: rest)).skip (gap (c :: rest)) = _
    rw [gap_nil]
    rfl
  have run : (c :: rest).takeWhile r.isNumeral = c :: rest := by
    have whole : MaximalRun r.isNumeral (c :: rest) [] := ⟨numeral, nofun⟩
    have taken := whole.takeWhile_append
    rwa [List.append_nil] at taken
  have outcome : ((new keywords r).load (c :: rest)).nextScan.outcome = .error e := by
    rw [nextScan, start]
    show (Scan.token keywords r none .start (c :: rest)).outcome = _
    rw [Scan.token, if_pos first, Scan.numeral, run]
    exact congrArg (Except.map _) h
  rw [source]
  unfold advance
  dsimp only
  rw [outcome]
  exact ⟨_, rfl⟩

/-! ## What can be wrong with a text -/

section
variable (keywords : KeywordTable) (r : Radix) (source : String)

/-- The text is read up to `before`, and the scan of a token begins with what comes after it. -/
structure ScansAt (before after : List Char) : Prop where
  whole : source.toList = before ++ after
  begins : ∃ l, Lexer.Reaches (Lexer.ofSource keywords r source) l ∧
    l.skipGap.cursor.offset = before.length

/-- The text is scanned as a numeral: a scan begins there with a digit or a point, and all that can
stand in numerals is taken. -/
structure ScansNumeral (before text after : List Char) : Prop where
  scans : ScansAt keywords r source before (text ++ after)
  first : ∃ c ∈ (text ++ after).head?, (c.isDigit || c = '.') = true
  run : MaximalRun r.isNumeral text after

/-- The faults in which the parse of a text can end. Those of a scan are positioned where the scan
begins. -/
inductive Fault.OfText : Fault → Prop
  | malformedNumber {before text after} : ScansNumeral keywords r source before text after →
      OfText (.atPosition (.malformedNumber (String.ofList text)) before.length)
  | tooManyDigits {before text after} : ScansNumeral keywords r source before text after →
      r.refuses (Radix.splitPoint text).1.length = true →
      OfText (.tooManyDigits (Radix.splitPoint text).1.length)
  | numeralOverflow {before text after} : ScansNumeral keywords r source before text after →
      r ≠ .decimal → r.refuses (Radix.splitPoint text).1.length = false →
      leastOverflow ≤ r.value (Radix.splitPoint text).1 → OfText .numeralOverflow
  | unterminatedString {before quote after} : ScansAt keywords r source before (quote :: after) →
      isQuote quote = true → OfText (.atPosition .unterminatedString before.length)
  | unexpectedCharacter {before c after} : ScansAt keywords r source before (c :: after) →
      OfText (.atPosition (.unexpectedCharacter (String.singleton c)) before.length)
  | tokenMismatch {expected found} {position : Int} : 0 ≤ position →
      position ≤ source.toList.length →
      OfText (.atPosition (.tokenMismatch expected found) position)
  | grammar {rule found expected} {position : Int} : 0 ≤ position →
      position ≤ source.toList.length →
      OfText (.atPosition (.grammar rule found expected) position)

end

section
variable {keywords : KeywordTable} {r : Radix} {source : String}

/-! ## Scanners -/

namespace Scan
variable {previous : Option Kind} {start : Location} {before rest : List Char} {c : Char}
  {e : Fault}

/-- Where a numeral is not converted the fault is one of the text. -/
theorem ofText_numeral (scans : ScansAt keywords r source before (c :: rest))
    (hs : start.offset = before.length) (hc : (c.isDigit || c = '.') = true)
    (h : (numeral r start (c :: rest)).outcome = .error e) : e.OfText keywords r source := by
  have scanned : ScansNumeral keywords r source before ((c :: rest).takeWhile r.isNumeral)
      ((c :: rest).dropWhile r.isNumeral) := by
    refine ⟨?_, ⟨c, ?_, hc⟩, maximalRun_takeWhile ..⟩
    · rw [List.takeWhile_append_dropWhile]
      exact scans
    · rw [List.takeWhile_append_dropWhile]
      rfl
  simp only [numeral, Radix.number] at h
  split at h
  · cases h
  rename_i reason hr
  cases h
  rcases Radix.read_eq_error hr with rfl | ⟨rfl, many⟩ | ⟨rfl, radix, few, le⟩
  · rw [NumeralError.toFault, hs]
    exact .malformedNumber scanned
  · exact .tooManyDigits scanned many
  · exact .numeralOverflow scanned radix few le

/-- Where a string does not end the fault is one of the text. -/
theorem ofText_literal (scans : ScansAt keywords r source before (c :: rest))
    (hs : start.offset = before.length) (hc : isQuote c = true)
    (h : (literal start c rest).outcome = .error e) : e.OfText keywords r source := by
  simp only [literal] at h
  split at h
  · cases h
  · cases h
    rw [hs]
    exact .unterminatedString scans hc

/-- A scan that makes no token tells what is wrong where it begins. -/
theorem ofText_token {cs : List Char} (scans : ScansAt keywords r source before cs)
    (hs : start.offset = before.length)
    (h : (token keywords r previous start cs).outcome = .error e) :
    e.OfText keywords r source := by
  unfold token at h
  split at h
  · cases h
  split at h
  · exact ofText_numeral scans hs ‹_› h
  split at h
  · cases h
  split at h
  · exact ofText_literal scans hs ‹_› h
  split at h
  · rename_i scan ho
    obtain ⟨_, _, rfl⟩ := Option.map_eq_some_iff.1 ho
    cases h
  · cases h
    rw [hs]
    exact .unexpectedCharacter scans

end Scan

/-! ## Lexers -/

namespace Lexer
variable {l l' : Lexer} {t : Token} {e : Fault}

/-- The lexer reads the text, and neither its place nor its current token is beyond the end. -/
structure ReadsWithin (keywords : KeywordTable) (r : Radix) (source : String) (l : Lexer) :
    Prop where
  keywords : l.keywords = keywords
  radix : l.radix = r
  text : l.source = source.toList
  offset : l.cursor.offset ≤ source.toList.length
  current : ∀ t, l.current = some t → 0 ≤ t.pos ∧ t.pos ≤ source.toList.length

namespace ReadsWithin

/-- The lexer that a text is parsed with reads within it. -/
theorem ofSource : (Lexer.ofSource keywords r source).ReadsWithin keywords r source :=
  ⟨rfl, rfl, rfl, Nat.zero_le _, fun _ h => nomatch h⟩

/-- A lexer that reads within the text still does after a token. -/
theorem advance (h : l.ReadsWithin keywords r source) (ha : advance l = .ok t l') :
    l'.ReadsWithin keywords r source := by
  obtain ⟨piece, text, after, rest, -, pos, rfl, -⟩ := exists_pieces_of_advance ha
  have length : (l.source.drop l.cursor.offset).length = _ := congrArg List.length rest
  have bound := h.offset
  rw [← h.text] at bound
  simp only [List.length_drop, List.length_append] at length
  refine ⟨h.keywords, h.radix, h.text, ?_, ?_⟩
  · rw [← h.text]
    show l.cursor.offset + piece.length + text.length ≤ l.source.length
    omega
  · rintro u ⟨⟩
    rw [← h.text, pos]
    omega

/-- A lexer that reads within the text still does after any number of tokens. -/
theorem reaches (h : l.ReadsWithin keywords r source) (hr : Reaches l l') :
    l'.ReadsWithin keywords r source := by
  induction hr with
  | refl => exact h
  | tail _ step ih =>
    obtain ⟨t, ht⟩ := step
    exact ih.advance ht

end ReadsWithin

/-- Where no token can be read, that tells something about the text. -/
theorem ofText_of_advance (hr : Reaches (ofSource keywords r source) l)
    (h : advance l = .error e l') : e.OfText keywords r source := by
  have within := ReadsWithin.ofSource.reaches hr
  obtain ⟨following, rest, -⟩ := exists_isGap l.cursor.rest
  have length : (l.source.drop l.cursor.offset).length = _ := congrArg List.length rest
  have bound := within.offset
  rw [← within.text] at bound
  simp only [List.length_drop, List.length_append] at length
  have offset : l.skipGap.cursor.offset ≤ l.source.length := by
    show l.cursor.offset + (gap l.cursor.rest).length ≤ l.source.length
    omega
  have before : (l.source.take l.skipGap.cursor.offset).length = l.skipGap.cursor.offset :=
    List.length_take_of_le offset
  have scans : ScansAt keywords r source (l.source.take l.skipGap.cursor.offset)
      l.skipGap.cursor.rest := by
    refine ⟨?_, l, hr, before.symm⟩
    rw [← within.text]
    exact (List.take_append_drop ..).symm
  have outcome := advance_eq_error h
  rw [nextScan, within.keywords, within.radix] at outcome
  exact Scan.ofText_token scans (congrArg Nat.cast before.symm) outcome

end Lexer

/-- What is wrong stands in the text, or at its end. -/
theorem Fault.OfText.position {d : Diagnostic}
    (h : (Fault.diagnostic d).OfText keywords r source) :
    0 ≤ d.position ∧ d.position ≤ source.toList.length := by
  have within : ∀ {before after}, ScansAt keywords r source before after →
      (0 : Int) ≤ before.length ∧ (before.length : Int) ≤ source.toList.length := by
    intro before after scans
    rw [scans.whole, List.length_append]
    omega
  cases h with
  | malformedNumber scanned => exact within scanned.scans
  | unterminatedString scans | unexpectedCharacter scans => exact within scans
  | tokenMismatch ge le | grammar ge le => exact ⟨ge, le⟩

/-- A fault that reports a token of the text is one of the text. -/
theorem Fault.Reports.ofText {e : Fault} {t : Token} (h : e.Reports t)
    (hp : 0 ≤ t.pos ∧ t.pos ≤ source.toList.length) : e.OfText keywords r source := by
  rcases h with ⟨_, rfl⟩ | ⟨_, _, rfl⟩
  · exact .tokenMismatch hp.1 hp.2
  · exact .grammar hp.1 hp.2

end

/-- A text is parsed, or the parse ends in a fault that tells what is wrong with the text. Its
position, if it has one, is in the text or at its end. -/
theorem parse_ok_or_ofText (keywords : KeywordTable) (r : Radix) (entry : Entry) (source : String) :
    (∃ node, parse keywords r entry source = .ok node) ∨
      ∃ e, parse keywords r entry source = .error e ∧ e.OfText keywords r source ∧
        ∀ d, e = .diagnostic d → 0 ≤ d.position ∧ d.position ≤ source.toList.length := by
  cases hp : parse keywords r entry source with
  | ok node => exact .inl ⟨node, rfl⟩
  | error e =>
    suffices ofText : e.OfText keywords r source by
      refine .inr ⟨e, rfl, ofText, ?_⟩
      rintro d rfl
      exact ofText.position
    cases ha : advance (Lexer.ofSource keywords r source) with
    | error e' l =>
      cases (parse_of_advance_error ha).symm.trans hp
      exact Lexer.ofText_of_advance .refl ha
    | ok t l =>
      rw [parse_of_advance ha, outcome_eq_error_iff] at hp
      obtain ⟨l', hp⟩ := hp
      have valid : Valid l := Lexer.valid_of_advance ha
      have reached : ∀ {l'}, Lexer.Reaches l l' →
          Lexer.Reaches (Lexer.ofSource keywords r source) l' := .head ⟨t, ha⟩
      cases Rule.failsAt_of_parse valid hp with
      | unread hr he => exact Lexer.ofText_of_advance (reached hr) he
      | rejected hr ht reports =>
        exact reports.ofText ((Lexer.ReadsWithin.ofSource.reaches (reached hr)).current _ ht)

/-- The radix three. -/
def Radix.ternary : Radix := ⟨3, by decide, by decide⟩

/-- Diagnostics and overflow are not all: in radix three no more than 4300 zeros are converted. -/
theorem not_parse_ok_or_diagnostic :
    ¬∀ (r : Radix) (entry : Entry) (source : String),
      (∃ node, parse .standard r entry source = .ok node) ∨
        (∃ d, parse .standard r entry source = .error (.diagnostic d)) ∨
          parse .standard r entry source = .error .numeralOverflow := by
  intro closed
  have zeros : ∀ c ∈ '0' :: List.replicate 4300 '0', Radix.ternary.isDigit c = true :=
    fun _ hc => Radix.isDigit_of_mem_replicate (n := 4301) hc
  have many : Radix.ternary.refuses ('0' :: List.replicate 4300 '0').length = true := by
    rw [List.length_cons, List.length_replicate]
    decide
  obtain ⟨l, unread⟩ := Lexer.exists_advance_error .standard (by decide)
    (fun c hc => Radix.isNumeral_of_isDigit (zeros c hc))
    (Radix.number_of_refuses zeros many 0)
  have fault : parse .standard .ternary .expression _ = _ := parse_of_advance_error unread
  rcases closed .ternary .expression _ with ⟨node, ok⟩ | ⟨d, diagnostic⟩ | overflow
  · cases fault.symm.trans ok
  · cases fault.symm.trans diagnostic
  · cases fault.symm.trans overflow

end Quill
