import Quill.Number.FreeForm.Numeral
import Quill.Proofs.Faults
import Quill.Proofs.Word

/-!
# The conversion of numerals

A text of digits and points is a numeral if it holds a digit and not more than one point
(`Radix.Denotes`). Any other one is reported as it stands, in every radix alike. A numeral has a
number that is not negative and not a NaN, unless it is written in another radix than ten and its
whole part has too many digits, or is rounded up to infinity: then the conversion fails
(`Radix.numberOfText_of_numeral`).

Where the rounding becomes infinite is told exactly (`Magnitude.isInfinite_ofNat`): from the middle
of the greatest finite double and the power of two after it. The middle itself is a tie, and goes to
the power, whose last digit is even.
-/

namespace Quill

/-! ## Rounding from the middle on -/

/-- The integer nearest to a quotient is not below its whole part. -/
theorem div_le_divRound (n d : Nat) : n / d ≤ divRound n d := by
  unfold divRound
  split
  · exact Nat.le_refl _
  · split <;> omega

/-- A quotient that is not below the middle of two integers, of which the lower one is odd, is not
rounded below the upper one. -/
theorem lt_divRound_of_middle_le {n d q : Nat} (hd : 0 < d) (hq : q % 2 = 1)
    (h : (2 * q + 1) * d ≤ 2 * n) : q < divRound n d := by
  have expand : (2 * q + 1) * d = 2 * (q * d) + d := by
    rw [Nat.add_mul, Nat.mul_assoc, Nat.one_mul]
  have le : q ≤ n / d := (Nat.le_div_iff_mul_le hd).2 (by omega)
  rcases Nat.lt_or_eq_of_le le with above | same
  · exact Nat.lt_of_lt_of_le above (div_le_divRound n d)
  have whole := Nat.div_add_mod n d
  rw [← same, Nat.mul_comm] at whole
  rw [divRound, ← same, if_neg (by omega)]
  split <;> omega

/-- A number that is not below the middle of a power of two and the greatest double before that
power is rounded up to it, or to more. -/
theorem le_roundRatio {n k : Nat}
    (h : (2 * (Nat.pow 2 precision - 1) + 1) * Nat.pow 2 k ≤ 2 * n) :
    Nat.pow 2 precision * Nat.pow 2 k ≤ roundRatio n 1 := by
  obtain ⟨p, hp⟩ : ∃ p, precision = p + 1 := ⟨52, rfl⟩
  have double : Nat.pow 2 precision = 2 * Nat.pow 2 p := by
    rw [hp]
    exact Nat.pow_succ'
  have one_le : 1 ≤ Nat.pow 2 p := Nat.two_pow_pos p
  have half : Nat.pow 2 (p + k) ≤ n := by
    have sum : Nat.pow 2 (p + k) = Nat.pow 2 p * Nat.pow 2 k := Nat.pow_add ..
    have le : Nat.pow 2 precision * Nat.pow 2 k ≤ 2 * n :=
      Nat.le_trans (Nat.mul_le_mul_right _ (by omega)) h
    rw [double, Nat.mul_assoc, ← sum] at le
    omega
  have log : p + k ≤ Nat.log2 n :=
    (Nat.le_log2 (Nat.ne_of_gt (Nat.lt_of_lt_of_le (Nat.two_pow_pos _) half))).2 half
  have bits : p + surplusBits n 1 = Nat.log2 n := by
    rw [surplusBits, Nat.div_one, hp]
    omega
  have pos : 0 < Nat.pow 2 (surplusBits n 1) := Nat.two_pow_pos _
  rw [roundRatio, Nat.one_mul]
  rcases Nat.lt_or_eq_of_le (show k ≤ surplusBits n 1 by omega) with more | same
  · -- The number has more digits than the power, and rounding takes none.
    have top : Nat.pow 2 p ≤ n / Nat.pow 2 (surplusBits n 1) := by
      rw [Nat.le_div_iff_mul_le pos]
      have sum : Nat.pow 2 (p + surplusBits n 1) = Nat.pow 2 p * Nat.pow 2 (surplusBits n 1) :=
        Nat.pow_add ..
      rw [← sum, bits]
      exact Nat.log2_self_le (by rintro rfl; exact absurd half (Nat.not_le.2 (Nat.two_pow_pos _)))
    calc Nat.pow 2 precision * Nat.pow 2 k
        = Nat.pow 2 p * Nat.pow 2 (k + 1) := by
          rw [double, Nat.mul_comm 2, Nat.mul_assoc]
          exact congrArg _ Nat.pow_succ'.symm
      _ ≤ Nat.pow 2 p * Nat.pow 2 (surplusBits n 1) :=
        Nat.mul_le_mul_left _ (Nat.pow_le_pow_right (by decide) more)
      _ ≤ _ := Nat.mul_le_mul_right _ (Nat.le_trans top (div_le_divRound ..))
  · rw [← same]
    refine Nat.mul_le_mul_right _ ?_
    have odd : (Nat.pow 2 precision - 1) % 2 = 1 := by omega
    have above := lt_divRound_of_middle_le (Nat.two_pow_pos k) odd h
    exact Nat.le_trans (by omega) above

/-- The natural numbers that are rounded up to infinity. -/
theorem Magnitude.isInfinite_ofNat {n : Nat} :
    (ofNat n).isInfinite = true ↔ leastOverflow ≤ n := by
  refine ⟨leastOverflow_le, fun le => ?_⟩
  have middle : leastOverflow = (2 * (Nat.pow 2 precision - 1) + 1) * Nat.pow 2 970 := by
    decide +kernel
  obtain ⟨k, top, bound⟩ : ∃ k, Nat.pow 2 k = 2 * oneUnits * Nat.pow 2 970 ∧
      overflowUnits = Nat.pow 2 precision * Nat.pow 2 k :=
    ⟨2045, by decide +kernel, by decide +kernel⟩
  have infinite : overflowUnits ≤ roundRatio (n * oneUnits) 1 := by
    rw [bound]
    refine le_roundRatio ?_
    rw [top]
    rw [middle] at le
    calc (2 * (Nat.pow 2 precision - 1) + 1) * (2 * oneUnits * Nat.pow 2 970)
        = 2 * oneUnits * ((2 * (Nat.pow 2 precision - 1) + 1) * Nat.pow 2 970) :=
          Nat.mul_left_comm ..
      _ ≤ 2 * oneUnits * n := Nat.mul_le_mul_left _ le
      _ = 2 * (n * oneUnits) := by rw [Nat.mul_comm n, Nat.mul_assoc]
  rw [ofNat, ofRatio, ofUnits, dif_neg (Nat.not_lt.2 infinite)]
  rfl

/-! ## Numerals -/

namespace Radix
variable {r : Radix} {text : List Char}

/-- Whether a text, of digits and points, is a numeral: it holds a digit, and not more than one
point. -/
def Denotes (r : Radix) (text : List Char) : Prop :=
  (∃ c ∈ text, r.isDigit c = true) ∧ text.count '.' ≤ 1

instance : Decidable (r.Denotes text) :=
  decidable_of_iff (text.any r.isDigit = true ∧ text.count '.' ≤ 1) (by rw [List.any_eq_true]; rfl)

example :
    decimal.Denotes ['.', '5'] ∧ ¬decimal.Denotes ['.'] ∧ ¬decimal.Denotes ['.', '5', '.'] := by
  decide

/-- A text is cut at its first point, if there is one. -/
theorem splitPoint_cases (text : List Char) :
    '.' ∉ text ∧ splitPoint text = (text, []) ∨
      ∃ whole fraction, '.' ∉ whole ∧ text = whole ++ '.' :: fraction ∧
        splitPoint text = (whole, fraction) := by
  have before : ∀ {whole : List Char}, '.' ∉ whole → ∀ c ∈ whole, decide (c ≠ '.') = true :=
    fun point c hc => decide_eq_true fun heq => point (heq ▸ hc)
  by_cases point : '.' ∈ text
  · obtain ⟨whole, fraction, rfl, first⟩ := List.eq_append_cons_of_mem point
    refine .inr ⟨whole, fraction, first, rfl, ?_⟩
    rw [splitPoint, List.takeWhile_append_of_pos (before first),
      List.dropWhile_append_of_pos (before first)]
    simp
  · refine .inl ⟨point, ?_⟩
    rw [splitPoint, (FreeForm.takeWhile_dropWhile_of_forall (before point)).1,
      (FreeForm.takeWhile_dropWhile_of_forall (before point)).2]
    rfl

/-- A text of digits and points denotes a number if there is something around its first point, and
all of that is digits. -/
theorem denotes_iff (h : ∀ c ∈ text, r.isNumeral c = true) : r.Denotes text ↔
    (splitPoint text).1 ++ (splitPoint text).2 ≠ [] ∧
      ∀ c ∈ (splitPoint text).1 ++ (splitPoint text).2, r.isDigit c = true := by
  have digit : ∀ c ∈ text, c ≠ '.' → r.isDigit c = true := by
    intro c hc ne
    simpa [isNumeral, ne] using h c hc
  rcases splitPoint_cases text with ⟨none, cut⟩ | ⟨whole, fraction, first, rfl, cut⟩
  · rw [cut, List.append_nil, Denotes, List.count_eq_zero_of_not_mem none]
    constructor
    · rintro ⟨⟨c, hc, -⟩, -⟩
      exact ⟨List.ne_nil_of_mem hc, fun c hc => digit c hc fun heq => none (heq ▸ hc)⟩
    · rintro ⟨ne, all⟩
      obtain ⟨c, hc⟩ := List.exists_mem_of_ne_nil _ ne
      exact ⟨⟨c, hc, all c hc⟩, Nat.zero_le 1⟩
  · have member : ∀ c, c ∈ whole ++ '.' :: fraction ↔ c = '.' ∨ c ∈ whole ++ fraction := by
      simp [or_left_comm]
    have single : (whole ++ '.' :: fraction).count '.' ≤ 1 ↔ '.' ∉ whole ++ fraction := by
      rw [List.count_append, List.count_cons_self, List.count_eq_zero_of_not_mem first,
        List.mem_append, not_or, ← List.count_eq_zero (l := fraction)]
      simp [first]
    rw [cut, Denotes, single]
    constructor
    · rintro ⟨⟨c, hc, hd⟩, point⟩
      have other := ((member c).1 hc).resolve_left (ne_point_of_isDigit hd)
      refine ⟨List.ne_nil_of_mem other, fun c hc => ?_⟩
      exact digit c ((member c).2 (.inr hc)) fun heq => point (heq ▸ hc)
    · rintro ⟨ne, all⟩
      obtain ⟨c, hc⟩ := List.exists_mem_of_ne_nil _ ne
      exact ⟨⟨c, (member c).2 (.inr hc), all c hc⟩, fun hp => ne_point_of_isDigit (all _ hp) rfl⟩

section
variable {pos : Int} (h : ∀ c ∈ text, r.isNumeral c = true)
include h

/-- A numeral that is handed in is read as one that is scanned. -/
theorem numberOfText_eq_number : r.numberOfText text pos = r.number text pos := by
  rw [numberOfText, number, readText_eq_read h]
  cases r.read text <;> rfl

/-- A text of digits and points that denotes no number is reported as it stands. -/
theorem numberOfText_of_not_denotes (hd : ¬r.Denotes text) : r.numberOfText text pos =
    .error (.atPosition (.malformedNumber (String.ofList text)) pos) := by
  rw [denotes_iff h, ← List.all_eq_true] at hd
  have malformed : r.read text = .error .malformed := by
    rw [read]
    dsimp only
    rw [if_pos]
    by_cases nothing : (splitPoint text).1 ++ (splitPoint text).2 = []
    · exact .inl (List.append_eq_nil_iff.1 nothing)
    · exact .inr fun all => hd ⟨nothing, all⟩
  rw [numberOfText_eq_number h, number, malformed]
  rfl

/-- What is read of a numeral: in radix ten all of it at once, in any other radix the whole part
first. -/
theorem read_of_denotes (hd : r.Denotes text) : r.read text =
    if r = decimal then
      .ok (Decimal.toMagnitude
        ⟨r.value ((splitPoint text).1 ++ (splitPoint text).2), -(splitPoint text).2.length⟩)
    else if r.refuses (splitPoint text).1.length then
      .error (.tooManyDigits (splitPoint text).1.length)
    else if leastOverflow ≤ r.value (splitPoint text).1 then .error .overflow
    else .ok (r.addFraction (.ofNat (r.value (splitPoint text).1)) 1 (splitPoint text).2) := by
  rw [denotes_iff h, ← List.all_eq_true] at hd
  rw [read]
  dsimp only
  rw [if_neg]
  · simp only [Magnitude.isInfinite_ofNat]
  · rintro (⟨whole, fraction⟩ | digits)
    · exact hd.1 (List.append_eq_nil_iff.2 ⟨whole, fraction⟩)
    · exact digits hd.2

/-- A numeral in another radix than ten has no number if its whole part has too many digits. -/
theorem numberOfText_of_refuses (hd : r.Denotes text)
    (many : r.refuses (splitPoint text).1.length = true) :
    r.numberOfText text pos = .error (.tooManyDigits (splitPoint text).1.length) := by
  rw [numberOfText_eq_number h, number, read_of_denotes h hd,
    if_neg (ne_decimal_of_refuses many), if_pos many]
  rfl

/-- Nor has it one if its whole part is rounded up to infinity. -/
theorem numberOfText_of_overflow (hd : r.Denotes text)
    (few : r.refuses (splitPoint text).1.length = false) (hr : r ≠ .decimal)
    (le : leastOverflow ≤ r.value (splitPoint text).1) :
    r.numberOfText text pos = .error .numeralOverflow := by
  rw [numberOfText_eq_number h, number, read_of_denotes h hd, if_neg hr,
    if_neg (Bool.eq_false_iff.1 few), if_pos le]
  rfl

/-- Any other numeral has one. -/
theorem exists_numberOfText (hd : r.Denotes text)
    (few : r.refuses (splitPoint text).1.length = false)
    (hr : r = .decimal ∨ r.value (splitPoint text).1 < leastOverflow) :
    ∃ m, r.numberOfText text pos = .ok (.ofMagnitude m) := by
  rw [numberOfText_eq_number h, number, read_of_denotes h hd]
  by_cases ten : r = decimal
  · rw [if_pos ten]
    exact ⟨_, rfl⟩
  · rw [if_neg ten, if_neg (Bool.eq_false_iff.1 few), if_neg (Nat.not_le.2 (hr.resolve_left ten))]
    exact ⟨_, rfl⟩

end

/-- Every zero after the digits multiplies the number by the base. -/
theorem value_append_zeros (digits : List Char) (n : Nat) :
    r.value (digits ++ List.replicate n '0') = r.value digits * Nat.pow r.base n := by
  induction n with
  | zero =>
    rw [List.replicate_zero, List.append_nil]
    exact (Nat.mul_one _).symm
  | succ n ih =>
    rw [List.replicate_succ', ← List.append_assoc, value, valueIn, List.foldl_append]
    show r.value (digits ++ List.replicate n '0') * r.base = _
    rw [ih, Nat.mul_assoc]
    rfl

/-- Digits with zeros after them are a numeral, all of which is its whole part. -/
theorem denotes_append_zeros {digits : List Char} (n : Nat)
    (hd : ∀ c ∈ digits, r.isDigit c = true) (ne : digits ≠ []) :
    (∀ c ∈ digits ++ List.replicate n '0', r.isNumeral c = true) ∧
      r.Denotes (digits ++ List.replicate n '0') ∧
      (splitPoint (digits ++ List.replicate n '0')).1 = digits ++ List.replicate n '0' := by
  have all : ∀ c ∈ digits ++ List.replicate n '0', r.isDigit c = true :=
    List.forall_mem_append.2 ⟨hd, fun _ hc => isDigit_of_mem_replicate hc⟩
  have numeral : ∀ c ∈ digits ++ List.replicate n '0', r.isNumeral c = true :=
    fun c hc => isNumeral_of_isDigit (all c hc)
  have whole := (splitPoint_of_digits all []).1
  rw [denotes_iff numeral, whole, List.append_nil]
  exact ⟨numeral, ⟨fun nil => ne (List.append_eq_nil_iff.1 nil).1, all⟩, rfl⟩

/-- With so many zeros that the number is rounded up to infinity it overflows. -/
theorem leastOverflow_le_append_zeros {digits : List Char} {n : Nat}
    (hd : ∀ c ∈ digits, r.isDigit c = true) (ne : digits ≠ [])
    (le : leastOverflow ≤ r.value digits * Nat.pow r.base n) :
    leastOverflow ≤ r.value (splitPoint (digits ++ List.replicate n '0')).1 := by
  rw [(denotes_append_zeros n hd ne).2.2, value_append_zeros]
  exact le

end Radix

/-- In every radix alike a numeral has a number, and any other text of digits and points is reported
as it stands. Only for the whole part of a numeral does the radix make a difference. In ten there is
a number in any case. In any other radix there is none if the whole part is rounded up to infinity,
and before that none if its digits, zeros in front included, are too many for a base that is no
power of two. -/
theorem Radix.numberOfText_of_numeral {r : Radix} {text : List Char}
    (h : ∀ c ∈ text, r.isNumeral c = true) (pos : Int) :
    r.numberOfText text pos = r.number text pos ∧
    (r.Denotes text → r.refuses (splitPoint text).1.length = false →
      r = .decimal ∨ r.value (splitPoint text).1 < leastOverflow →
      ∃ m, r.numberOfText text pos = .ok (.ofMagnitude m)) ∧
    (r.Denotes text → r.refuses (splitPoint text).1.length = true →
      r.numberOfText text pos = .error (.tooManyDigits (splitPoint text).1.length)) ∧
    (r.Denotes text → r.refuses (splitPoint text).1.length = false → r ≠ .decimal →
      leastOverflow ≤ r.value (splitPoint text).1 →
      r.numberOfText text pos = .error .numeralOverflow) ∧
    (¬r.Denotes text → r.numberOfText text pos =
      .error (.atPosition (.malformedNumber (String.ofList text)) pos)) :=
  ⟨numberOfText_eq_number h, exists_numberOfText h, numberOfText_of_refuses h,
    numberOfText_of_overflow h, numberOfText_of_not_denotes h⟩

/-- The radix sixteen. -/
def Radix.hexadecimal : Radix := ⟨16, by decide, by decide⟩

/-- No number of digits is too many in radix sixteen. -/
theorem Radix.hexadecimal_refuses {n : Nat} : hexadecimal.refuses n = false := rfl

/-- The least number that overflows, written in radix sixteen with digits of both cases, and the
least number of zeros that are too many in radix three. -/
theorem Radix.numberOfText_of_numeral_least :
    Radix.hexadecimal.numberOfText ("FffffffffffffC".toList ++ List.replicate 242 '0') 3 =
      .error .numeralOverflow ∧
    Radix.ternary.numberOfText (['0'] ++ List.replicate 4300 '0') 3 =
      .error (.tooManyDigits 4301) := by
  have digits : ∀ c ∈ "FffffffffffffC".toList, hexadecimal.isDigit c = true :=
    List.all_eq_true.1 rfl
  obtain ⟨numeral, denotes, whole⟩ := denotes_append_zeros 242 digits nofun
  obtain ⟨numeral', denotes', whole'⟩ :=
    @denotes_append_zeros ternary ['0'] 4300 (List.all_eq_true.1 rfl) nofun
  have many : (splitPoint (['0'] ++ List.replicate 4300 '0')).1.length = 4301 := by
    rw [whole', List.length_append, List.length_replicate]
    rfl
  constructor
  · exact (numberOfText_of_numeral numeral 3).2.2.2.1 denotes hexadecimal_refuses (by decide)
      (leastOverflow_le_append_zeros digits nofun (by decide +kernel))
  · have refused := (numberOfText_of_numeral numeral' 3).2.2.1 denotes'
    rw [many] at refused
    exact refused (by decide)

/-- Not every numeral has a number. -/
theorem Radix.not_numberOfText_of_numeral :
    ¬∀ (r : Radix) (text : List Char) (pos : Int), (∀ c ∈ text, r.isNumeral c = true) →
      (r.Denotes text → ∃ x, r.numberOfText text pos = .ok x) ∧
      (¬r.Denotes text → r.numberOfText text pos =
        .error (.atPosition (.malformedNumber (String.ofList text)) pos)) := by
  intro claim
  have digits : ∀ c ∈ ['1'], hexadecimal.isDigit c = true := List.all_eq_true.1 rfl
  obtain ⟨numeral, denotes, -⟩ := denotes_append_zeros 256 digits nofun
  obtain ⟨x, hx⟩ := (claim hexadecimal _ 0 numeral).1 denotes
  rw [numberOfText_of_overflow numeral denotes hexadecimal_refuses (by decide)
    (leastOverflow_le_append_zeros digits nofun (by decide +kernel))] at hx
  cases hx

end Quill
