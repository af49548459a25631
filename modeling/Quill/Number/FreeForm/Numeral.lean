import Quill.Number.FreeForm

/-!
# Numerals are numbers in free form

The free form extends the numerals: on a text that holds only digits of the radix and points, none
of its freedoms takes effect. There is no white space to trim and no sign, mark, low line or
exponent, and every digit is its own ASCII digit. So `Radix.readText` and `Radix.read` agree on such
a text, in the number and in the failure (`Radix.readText_eq_read`).
-/

namespace Quill

open Unicode FreeForm

namespace FreeForm

/-- Characters below the capital letters have no case. -/
theorem toLower_eq_self {c : Char} (h : c.toNat < 65) : c.toLower = c := by
  unfold Char.toLower
  rw [dif_neg]
  intro hc
  have := UInt32.le_iff_toNat_le.1 hc.1
  change 65 ≤ c.toNat at this
  omega

/-- Where a property holds all through a text, nothing comes after. -/
theorem takeWhile_dropWhile_of_forall {p : Char → Bool} {text : List Char}
    (h : ∀ c ∈ text, p c = true) : text.takeWhile p = text ∧ text.dropWhile p = [] := by
  induction text with
  | nil => exact ⟨rfl, rfl⟩
  | cons c text ih =>
    have := ih fun d hd => h d (List.mem_cons_of_mem _ hd)
    simp [h c List.mem_cons_self, this]

/-- Nothing is trimmed where there are no blanks. -/
theorem trim_eq_self {text : List Char} (h : ∀ c ∈ text, isSpace c = false) :
    trim text = text := by
  have keep : ∀ l : List Char, (∀ c ∈ l, isSpace c = false) → l.dropWhile isSpace = l := by
    intro l hl
    cases l with
    | nil => rfl
    | cons c l => simp [hl c List.mem_cons_self]
  rw [trim, keep text h, keep text.reverse (by simpa using h), List.reverse_reverse]

/-- A text without signs has none in front. -/
theorem splitSign_eq_self {text : List Char} (minus : '-' ∉ text) (plus : '+' ∉ text) :
    splitSign text = (false, text) := by
  unfold splitSign
  split
  · exact absurd List.mem_cons_self minus
  · exact absurd List.mem_cons_self plus
  · rfl

/-- A text without low lines is not grouped. -/
theorem ungroup_eq_self {isDigit : Char → Bool} {text : List Char} (h : '_' ∉ text) :
    ungroup isDigit text = some text := by
  fun_induction ungroup isDigit text with
  | case1 => rfl
  | case2 => exact absurd List.mem_cons_self h
  | case3 => simp at h
  | case4 => simp at h
  | case5 c rest _ _ ih => simp [ih (by simp_all)]

end FreeForm

namespace Radix

/-- The characters of numerals are points, ASCII digits and ASCII letters. -/
theorem toNat_of_isNumeral {r : Radix} {c : Char} (h : r.isNumeral c) :
    c.toNat = 46 ∨ 48 ≤ c.toNat ∧ c.toNat ≤ 57 ∨ 65 ≤ c.toNat ∧ c.toNat ≤ 90 ∨
      97 ≤ c.toNat ∧ c.toNat ≤ 122 := by
  simp only [isNumeral, Bool.or_eq_true, decide_eq_true_eq] at h
  rcases h with rfl | h
  · left; decide
  · obtain ⟨d, hd, _⟩ := exists_digitValue? h
    exact .inr (toNat_of_digitValue? hd)

/-- There is nothing to trim in a numeral, and its digits are ASCII digits. -/
theorem plain_eq_self {r : Radix} {text : List Char} (h : ∀ c ∈ text, r.isNumeral c) :
    plain text = text := by
  have ascii : text.map asciiDigit = text.map id := by
    apply List.map_congr_left
    intro c hc
    have := toNat_of_isNumeral (h c hc)
    exact asciiDigit_of_lt (by omega)
  rw [plain, ascii, List.map_id]
  apply trim_eq_self
  intro c hc
  have := toNat_of_isNumeral (h c hc)
  simp [isSpace, spaceRanges, inRanges]
  omega

/-- No sign and no low line stands in a numeral. -/
theorem not_mem_of_toNat {r : Radix} {text : List Char} (h : ∀ c ∈ text, r.isNumeral c)
    (c : Char) (hc : c.toNat < 46 ∨ c.toNat = 95) : c ∉ text := by
  intro mem
  have := toNat_of_isNumeral (h c mem)
  omega

/-- A numeral has no sign. -/
theorem splitSign_of_numeral {r : Radix} {text : List Char} (h : ∀ c ∈ text, r.isNumeral c) :
    splitSign text = (false, text) :=
  splitSign_eq_self (not_mem_of_toNat h '-' (by decide)) (not_mem_of_toNat h '+' (by decide))

/-- The digits of a numeral are not grouped. -/
theorem ungroup_of_numeral {r : Radix} {text : List Char} (h : ∀ c ∈ text, r.isNumeral c)
    (p : Char → Bool) : ungroup p text = some text :=
  ungroup_eq_self (not_mem_of_toNat h '_' (by decide))

/-- The mark of a radix is no digit of it. -/
theorem isDigit_of_mem_marks {r : Radix} {c : Char} (h : c ∈ r.marks) :
    r.isDigit c = false := by
  have mark : r.base = 2 ∧ (c = 'b' ∨ c = 'B') ∨ r.base = 8 ∧ (c = 'o' ∨ c = 'O') ∨
      r.base = 16 ∧ (c = 'x' ∨ c = 'X') := by
    grind [marks]
  rcases mark with ⟨hb, rfl | rfl⟩ | ⟨hb, rfl | rfl⟩ | ⟨hb, rfl | rfl⟩ <;>
    simp [isDigit, digitValue?, hb]

/-- Digits of the radix have no mark of the radix in front. -/
theorem dropMark_eq_self {r : Radix} {text : List Char} (h : ∀ c ∈ text, r.isDigit c) :
    r.dropMark text = text := by
  unfold dropMark
  split
  · rename_i mark rest
    rw [if_neg]
    intro hm
    have := isDigit_of_mem_marks hm
    rw [h mark (by simp)] at this
    cases this
  · rfl

/-- Digits alone are read as the natural number they denote. -/
theorem integer?_of_digits {r : Radix} {text : List Char} (h : ∀ c ∈ text, r.isDigit c)
    (ne : text ≠ []) : r.integer? text = some (r.value text : Int) := by
  have numeral : ∀ c ∈ text, r.isNumeral c := fun c hc => isNumeral_of_isDigit (h c hc)
  simp [integer?, plain_eq_self numeral, splitSign_of_numeral numeral, dropMark_eq_self h,
    ungroup_of_numeral numeral, nat?_of_digits h ne]

/-- Digits alone are added as in a numeral. -/
theorem addText_of_digits {r : Radix} {text : List Char} (h : ∀ c ∈ text, r.isDigit c)
    (m : Magnitude) (scale : Nat) :
    r.addText (.ofMagnitude m) scale text = .ok (.ofMagnitude (r.addFraction m scale text)) := by
  induction text generalizing m scale with
  | nil => rfl
  | cons c text ih =>
    have hc := h c List.mem_cons_self
    obtain ⟨d, hd, _⟩ := exists_digitValue? hc
    have := toNat_of_digitValue? hd
    have one : r.nat? [asciiDigit c] = some d := by
      rw [asciiDigit_of_lt (by omega)]
      simp [nat?, value, valueIn, hc, hd]
    unfold addText addFraction
    rw [one, hd]
    exact ih (fun c hc => h c (List.mem_cons_of_mem _ hc)) (m + .ofRatio d (scale * r.base))
      (scale * r.base)

/-- Without an exponent the last digit of a decimal numeral stands as far after the point as there
are digits there. -/
theorem decimal?_of_numeral {text : List Char} (h : ∀ c ∈ text, decimal.isNumeral c)
    (digits : ∀ c ∈ (splitPoint text).1 ++ (splitPoint text).2, decimal.isDigit c)
    (ne : (splitPoint text).1 ++ (splitPoint text).2 ≠ []) :
    decimal? text = some ⟨decimal.value ((splitPoint text).1 ++ (splitPoint text).2),
      -(splitPoint text).2.length⟩ := by
  have noMark : ∀ c ∈ text, (decide (c ≠ 'e')) = true := by
    intro c hc
    have := h c hc
    simp only [decide_eq_true_eq]
    rintro rfl
    simp [isNumeral, isDigit, digitValue?, decimal] at this
  have near : nearExponent ((splitPoint text).1 ++ (splitPoint text).2).length
      (0 - (splitPoint text).2.length) = -(splitPoint text).2.length := by
    simp only [nearExponent, farthestPlace, List.length_append]
    omega
  have whole := takeWhile_dropWhile_of_forall noMark
  rw [decimal?, whole.1, whole.2]
  simp only [Option.bind_eq_bind, Option.bind_some, nat?_of_digits digits ne, near]

/-- The characters of decimal numerals are points and ASCII digits. -/
theorem toNat_lt_of_isNumeral_decimal {c : Char} (h : decimal.isNumeral c) : c.toNat < 58 := by
  simp only [isNumeral, Bool.or_eq_true, decide_eq_true_eq] at h
  rcases h with rfl | h
  · decide
  obtain ⟨d, hd, lt⟩ := exists_digitValue? h
  have lt : d < 10 := lt
  unfold digitValue? at hd
  split at hd
  · rename_i hc
    exact Nat.lt_succ_of_le hc.2
  split at hd
  · rename_i hc
    have : 97 ≤ c.toNat := hc.1
    cases hd
    omega
  split at hd
  · rename_i hc
    have : 65 ≤ c.toNat := hc.1
    cases hd
    omega
  · cases hd

/-- A decimal numeral in free form is the number nearest to its exact value. -/
theorem ofChars?_of_numeral {text : List Char} (h : ∀ c ∈ text, decimal.isNumeral c)
    (digits : ∀ c ∈ (splitPoint text).1 ++ (splitPoint text).2, decimal.isDigit c)
    (ne : (splitPoint text).1 ++ (splitPoint text).2 ≠ []) :
    Binary64.ofChars? text = some (.ofMagnitude (Decimal.toMagnitude
      ⟨decimal.value ((splitPoint text).1 ++ (splitPoint text).2),
        -(splitPoint text).2.length⟩)) := by
  have small : ∀ c ∈ text, c.toNat < 58 := fun c hc => toNat_lt_of_isNumeral_decimal (h c hc)
  have lower : text.map Char.toLower = text.map id := by
    apply List.map_congr_left
    intro c hc
    exact toLower_eq_self (by have := small c hc; omega)
  have noName : ∀ names : List (List Char),
      names.all (·.any fun c => 58 ≤ c.toNat) = true → text ∉ names := by
    intro names all mem
    obtain ⟨c, hc, big⟩ := List.any_eq_true.1 (List.all_eq_true.1 all text mem)
    have := small c hc
    have := of_decide_eq_true big
    omega
  rw [Binary64.ofChars?, plain_eq_self h, ungroup_of_numeral h]
  simp only [Option.bind_eq_bind, Option.bind_some, lower, List.map_id, splitSign_of_numeral h]
  rw [if_neg (noName infinityWords rfl), if_neg (noName nanWords rfl),
    decimal?_of_numeral h digits ne]
  rfl

/-- Around its first point a numeral has digits, and perhaps further points after it. -/
theorem isDigit_of_splitPoint {r : Radix} {text : List Char} (h : ∀ c ∈ text, r.isNumeral c) :
    (∀ c ∈ (splitPoint text).1, r.isDigit c) ∧
      ∀ c ∈ (splitPoint text).2, c ≠ '.' → r.isDigit c := by
  have digit : ∀ c ∈ text, c ≠ '.' → r.isDigit c := by
    intro c hc ne
    have := h c hc
    simpa [isNumeral, ne] using this
  constructor
  · intro c hc
    refine digit c ((List.takeWhile_sublist _).subset hc) ?_
    simpa using List.all_eq_true.1 (List.all_takeWhile (l := text)) c hc
  · intro c hc
    exact digit c (((List.drop_sublist _ _).trans (List.dropWhile_sublist _)).subset hc)

/-- A point is a digit in no radix. -/
theorem isDigit_point (r : Radix) : r.isDigit '.' = false := rfl

/-- A natural number is rounded as a magnitude, and is refused where that is infinite. -/
theorem nearestFinite_natCast (n : Nat) :
    nearestFinite n =
      if (Magnitude.ofNat n).isInfinite then .error .overflow
      else .ok (.ofMagnitude (.ofNat n)) := by
  have same : Binary64.ofInt n = .ofMagnitude (.ofNat n) := by
    rw [Binary64.ofInt, Binary64.ofMagnitude, Int.natAbs_natCast, decide_eq_false (by omega)]
  rw [nearestFinite, same, Int.natAbs_natCast]

/-- All digits of a text that holds nothing else are counted. -/
theorem leadingDigits?_of_digits {r : Radix} {text : List Char} (h : ∀ c ∈ text, r.isDigit c) :
    r.leadingDigits? text = some text.length := by
  have numeral : ∀ c ∈ text, r.isNumeral c := fun c hc => isNumeral_of_isDigit (h c hc)
  have run : ∀ c ∈ text, (decide (c = '_') || r.isDigit c) = true := fun c hc => by simp [h c hc]
  rw [leadingDigits?, plain_eq_self numeral, splitSign_of_numeral numeral]
  dsimp only
  rw [(takeWhile_dropWhile_of_forall run).1, ungroup_of_numeral numeral]
  rfl

/-- Digits alone are read as the natural number that they denote, if they are not too many. -/
theorem readWhole_of_digits {r : Radix} {text : List Char} (h : ∀ c ∈ text, r.isDigit c) :
    r.readWhole text =
      if r.refuses text.length then .error (.tooManyDigits text.length)
      else nearestFinite (r.value text) := by
  by_cases nothing : text = []
  · subst nothing
    have few : r.refuses ([] : List Char).length = false := r.refuses_zero
    have zero : r.value [] = 0 := rfl
    rw [few, zero, nearestFinite_natCast, Magnitude.ofNat_zero]
    rfl
  rw [readWhole, if_neg nothing, excess?, leadingDigits?_of_digits h]
  cases many : r.refuses text.length with
  | true =>
    rw [Option.filter_some_pos many]
    rfl
  | false =>
    rw [Option.filter_some_neg many, integer?_of_digits h nothing, if_neg Bool.false_ne_true]

/-- A text of digits and points is read as the numeral that it is. -/
theorem readText_eq_read {r : Radix} {text : List Char} (h : ∀ c ∈ text, r.isNumeral c) :
    r.readText text = (r.read text).map .ofMagnitude := by
  obtain ⟨whole, fraction⟩ := isDigit_of_splitPoint h
  by_cases point : '.' ∈ (splitPoint text).2
  · have bad : ((splitPoint text).1 ++ (splitPoint text).2).all r.isDigit = false :=
      List.all_eq_false.2 ⟨'.', List.mem_append_right _ point, by simp [isDigit_point]⟩
    simp only [readText, read, point, bad, true_or, if_true, Bool.false_eq_true,
      not_false_eq_true, or_true]
    rfl
  have digits : ∀ c ∈ (splitPoint text).1 ++ (splitPoint text).2, r.isDigit c := by
    intro c hc
    rcases List.mem_append.1 hc with hc | hc
    · exact whole c hc
    · exact fraction c hc fun e => point (e ▸ hc)
  have all : ((splitPoint text).1 ++ (splitPoint text).2).all r.isDigit :=
    List.all_eq_true.2 digits
  by_cases empty : (splitPoint text).1 = [] ∧ (splitPoint text).2 = []
  · simp only [readText, read, empty, true_or, or_true, and_self, if_true]
    rfl
  have ne : (splitPoint text).1 ++ (splitPoint text).2 ≠ [] := by simpa using empty
  simp only [readText, read, point, empty, all, not_true_eq_false, or_self, if_false]
  by_cases ten : r = decimal
  · subst ten
    simp only [if_true, ofChars?_of_numeral h digits ne]
    rfl
  · rw [if_neg ten, if_neg ten, readWhole_of_digits whole, nearestFinite_natCast]
    by_cases many : r.refuses (splitPoint text).1.length = true
    · rw [if_pos many, if_pos many]
      rfl
    rw [if_neg many, if_neg many]
    generalize Magnitude.ofNat (r.value (splitPoint text).1) = m
    cases m.isInfinite with
    | true => rfl
    | false =>
      simp only [Bool.false_eq_true, if_false,
        addText_of_digits fun c hc => digits c (List.mem_append_right _ hc)]
      rfl

end Radix

end Quill
