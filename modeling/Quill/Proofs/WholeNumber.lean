import Mathlib.Data.Nat.Digits.Defs
import Quill.Proofs.Conversion

/-!
# Whole numbers are read exactly

A whole number below two to the power of 53 is a double (`Magnitude.whole`), and rounding leaves a
double as it is (`roundRatio_eq_self`). So what digits denote is read exactly in every radix that
does not refuse so many of them (`Radix.Writes.number_eq`), although radix ten rounds a quotient of
what it read and any other radix adds fractions to it. The digits are those of Mathlib's positional
value, with zeros in front or without, and it makes no difference whether a point comes after them.

Zeros in front count as digits. A number as small as it may be, written with more than 4300 digits
in a base that is neither ten nor a power of two, has no number (`Radix.Writes.number_of_refuses`).

A text that begins with a digit from zero to nine and is such a numeral is a single token, because
the scan takes every letter that is a digit of the radix (`tokenize_of_lexeme`). The result is
`tokenize_whole`.
-/

namespace Quill

/-! ## Rounding -/

/-- A quotient without a remainder is its own nearest integer. -/
theorem divRound_of_dvd {n d : Nat} (hd : 0 < d) (h : d ∣ n) : divRound n d = n / d := by
  rw [divRound, Nat.mod_eq_zero_of_dvd h, if_pos (by omega)]

/-- A number that a double holds keeps all its binary digits. -/
theorem roundRatio_eq_self {units : Nat} (h : Representable units) :
    roundRatio units 1 = units := by
  obtain ⟨-, m, e, hm, rfl⟩ := h
  have pos : 0 < Nat.pow 2 (surplusBits (m * Nat.pow 2 e) 1) := Nat.two_pow_pos _
  have bits : surplusBits (m * Nat.pow 2 e) 1 ≤ e := by
    rw [surplusBits, Nat.div_one]
    by_cases zero : m * Nat.pow 2 e = 0
    · rw [zero]
      exact Nat.zero_le e
    · have below : m * Nat.pow 2 e < Nat.pow 2 (precision + e) := by
        have split : Nat.pow 2 (precision + e) = Nat.pow 2 precision * Nat.pow 2 e := Nat.pow_add ..
        rw [split]
        exact Nat.mul_lt_mul_of_pos_right hm (Nat.two_pow_pos e)
      have log := (Nat.log2_lt zero).2 below
      omega
  have divides : Nat.pow 2 (surplusBits (m * Nat.pow 2 e) 1) ∣ m * Nat.pow 2 e :=
    Nat.dvd_trans (Nat.pow_dvd_pow 2 bits) (Nat.dvd_mul_left ..)
  rw [roundRatio, Nat.one_mul, divRound_of_dvd pos divides, Nat.div_mul_cancel divides]

namespace Magnitude

/-- A double is the nearest one to its own units. -/
theorem ofUnits_eq_finite {units : Nat} (h : Representable units) :
    ofUnits units 1 = .finite units h := by
  unfold ofUnits
  simp only [roundRatio_eq_self h]
  rw [dif_pos h.1]

/-- The units of a whole number of so few binary digits are those of a double. -/
theorem representable_whole {n : Nat} (h : n < Nat.pow 2 precision) :
    Representable (n * oneUnits) := by
  have bound : Nat.pow 2 precision * oneUnits < overflowUnits := by decide +kernel
  have below := Nat.lt_of_le_of_lt (Nat.mul_le_mul_right _ (Nat.le_of_lt h)) bound
  refine ⟨below, n, leastExponent, h, ?_⟩
  unfold oneUnits
  generalize Nat.pow 2 leastExponent = unit
  rfl

/-- The whole number `n` as a double, exactly. -/
def whole (n : Nat) (h : n < Nat.pow 2 precision) : Magnitude :=
  .finite (n * oneUnits) (representable_whole h)

/-- A whole number of so few binary digits is rounded to itself. -/
theorem ofNat_eq_whole {n : Nat} (h : n < Nat.pow 2 precision) : ofNat n = whole n h :=
  ofUnits_eq_finite (representable_whole h)

end Magnitude

/-- A decimal number without a fraction is a natural number. -/
theorem Decimal.toMagnitude_ofNat (n : Nat) : toMagnitude ⟨n, 0⟩ = .ofNat n := by
  have one : n * Nat.pow 10 0 = n := Nat.mul_one n
  rw [toMagnitude, if_pos (Int.le_refl 0)]
  show Magnitude.ofRatio (n * Nat.pow 10 0) 1 = _
  rw [one]
  rfl

/-! ## Digits -/

namespace Radix
variable {r : Radix} {n : Nat} {digits point : List Char}

/-- The digits write the number in the radix. There may be zeros in front, and letters of either
case for the digits from ten on. -/
def Writes (r : Radix) (n : Nat) (digits : List Char) : Prop :=
  digits ≠ [] ∧ ∃ values : List Nat, digits.map digitValue? = values.map some ∧
    (∀ d ∈ values, d < r.base) ∧ Nat.ofDigits r.base values.reverse = n

/-- What writes a number is digits of the radix. -/
theorem Writes.isDigit (h : r.Writes n digits) : ∀ c ∈ digits, r.isDigit c = true := by
  obtain ⟨-, values, same, below, -⟩ := h
  intro c hc
  have mem : digitValue? c ∈ values.map some := same ▸ List.mem_map_of_mem hc
  obtain ⟨d, hd, value⟩ := List.mem_map.1 mem
  rw [Radix.isDigit, ← value]
  exact decide_eq_true (below d hd)

/-- Zeros in front make no other number. -/
theorem Writes.replicate_append (h : r.Writes n digits) (zeros : Nat) :
    r.Writes n (List.replicate zeros '0' ++ digits) := by
  obtain ⟨ne, values, same, below, value⟩ := h
  refine ⟨fun nil => ne (List.append_eq_nil_iff.1 nil).2, List.replicate zeros 0 ++ values, ?_, ?_,
    ?_⟩
  · rw [List.map_append, List.map_append, same, List.map_replicate, List.map_replicate]
    rfl
  · intro d hd
    rcases List.mem_append.1 hd with zero | hd
    · rw [List.eq_of_mem_replicate zero]
      exact Nat.lt_of_lt_of_le Nat.two_pos r.two_le_base
    · exact below d hd
  · rw [List.reverse_append, List.reverse_replicate, Nat.ofDigits_append_replicate_zero, value]

/-- To add up digits from the first one on comes to their positional value. -/
theorem Writes.value_eq (h : r.Writes n digits) : r.value digits = n := by
  obtain ⟨-, values, same, -, rfl⟩ := h
  calc r.value digits
      = (digits.map digitValue?).foldl (fun n d => n * r.base + d.getD 0) 0 := by
        rw [List.foldl_map]
        rfl
    _ = values.foldl (fun n d => n * r.base + d) 0 := by
      rw [same, List.foldl_map]
      rfl
    _ = Nat.ofDigits r.base values.reverse := by
      rw [Nat.ofDigits_eq_foldr, List.foldr_reverse]
      simp only [Nat.cast_id, Nat.add_comm, Nat.mul_comm]

/-- The point that may come after a whole number. -/
def endings : List (List Char) := [[], ['.']]

/-- Nothing comes after the point. -/
theorem splitPoint_of_ending (h : ∀ c ∈ digits, r.isDigit c = true) (hp : point ∈ endings) :
    splitPoint (digits ++ point) = (digits, []) := by
  obtain ⟨none, some⟩ := splitPoint_of_digits h []
  rcases List.mem_pair.1 hp with rfl | rfl
  · rwa [List.append_nil]
  · exact some

/-- What writes a whole number is a numeral, with the point and without it. -/
theorem Writes.denotes (h : r.Writes n digits) (hp : point ∈ endings) :
    (∀ c ∈ digits ++ point, r.isNumeral c = true) ∧ r.Denotes (digits ++ point) := by
  have numeral : ∀ c ∈ digits ++ point, r.isNumeral c = true := by
    intro c hc
    rcases List.mem_append.1 hc with hc | hc
    · exact isNumeral_of_isDigit (h.isDigit c hc)
    · rcases List.mem_pair.1 hp with rfl | rfl
      · cases hc
      · rw [List.mem_singleton.1 hc]
        rfl
  refine ⟨numeral, (denotes_iff numeral).2 ?_⟩
  rw [splitPoint_of_ending h.isDigit hp, List.append_nil]
  exact ⟨h.1, h.isDigit⟩

/-- What writes a whole number has it as its number, in radix ten as in any other, unless it has too
many digits. -/
theorem Writes.number_eq (h : r.Writes n digits) (hn : n < Nat.pow 2 precision)
    (few : r.refuses digits.length = false) (hp : point ∈ endings) (pos : Int) :
    r.number (digits ++ point) pos = .ok (.ofMagnitude (.whole n hn)) := by
  obtain ⟨numeral, denotes⟩ := h.denotes hp
  have finite : ¬leastOverflow ≤ n := by
    rw [← Magnitude.isInfinite_ofNat, Magnitude.ofNat_eq_whole hn]
    exact Bool.false_ne_true
  have read : r.read (digits ++ point) = .ok (.whole n hn) := by
    rw [read_of_denotes numeral denotes, splitPoint_of_ending h.isDigit hp]
    dsimp only
    rw [List.append_nil, h.value_eq, if_neg (Bool.eq_false_iff.1 few), if_neg finite,
      ← Magnitude.ofNat_eq_whole hn]
    split
    · exact congrArg Except.ok (Decimal.toMagnitude_ofNat n)
    · rfl
  rw [number, read]

/-- What writes a whole number with too many digits has no number. -/
theorem Writes.number_of_refuses (h : r.Writes n digits) (many : r.refuses digits.length = true)
    (hp : point ∈ endings) (pos : Int) :
    r.number (digits ++ point) pos = .error (.tooManyDigits digits.length) := by
  obtain ⟨numeral, denotes⟩ := h.denotes hp
  have whole : (splitPoint (digits ++ point)).1 = digits :=
    congrArg Prod.fst (splitPoint_of_ending h.isDigit hp)
  rw [← whole] at many
  rw [← numberOfText_eq_number numeral, numberOfText_of_refuses numeral denotes many, whole]

end Radix

/-! ## Tokens -/

/-- A text that is a single lexeme is a single token. -/
theorem tokenize_of_lexeme {keywords : KeywordTable} {r : Radix} {t : Token} {text : List Char}
    (h : Lexeme keywords r none [] t text) (start : t.start = .start) (hk : t.kind ≠ .eof) :
    tokenize keywords r (String.ofList text) =
      .ok [t, .endOfInput (Location.start.advance text)] := by
  have source : Lexer.ofSource keywords r (String.ofList text) =
      (Lexer.new keywords r).load text := by
    rw [Lexer.ofSource, String.toList_ofList]
  have rest : ((Lexer.new keywords r).load text).cursor.rest = [] ++ (text ++ []) :=
    (List.append_nil text).symm
  have first := Lexer.advance_of_lexeme rest (.blanks (List.forall_mem_nil _)) h start
  have ended := Lexer.advance_of_rest_nil
    (l := ((Lexer.new keywords r).load text).past [] text t) (Cursor.rest_skip rest)
  have place : (((Lexer.new keywords r).load text).past [] text t).cursor.location =
      Location.start.advance text :=
    Cursor.location_skip ..
  rw [tokenize_eq, source,
    Lexer.tokensFrom_of_ne_eof first hk (Lexer.tokensFrom_of_eof ended rfl), place]
  rfl

/-- Where a text writes a number with too many digits, it has no tokens. -/
theorem tokenize_of_refuses {keywords : KeywordTable} {r : Radix} {n : Nat} {c : Char}
    {rest point : List Char} (h : r.Writes n (c :: rest)) (hc : c.isDigit = true)
    (hp : point ∈ Radix.endings) (many : r.refuses (c :: rest).length = true) :
    tokenize keywords r (String.ofList (c :: rest ++ point)) =
      .error (.tooManyDigits (c :: rest).length) := by
  have begins : (c.isDigit || c = '.') = true := by rw [hc, Bool.true_or]
  obtain ⟨_, unread⟩ := Lexer.exists_advance_error keywords begins (h.denotes hp).1
    (h.number_of_refuses many hp 0)
  exact tokenize_of_advance_error unread

/-- Whole numbers are read exactly. A text that begins with a digit from zero to nine and writes a
number below two to the power of 53 in the radix, with a point after it or without, is a single
token whose value is that number. So what writes the number in any other radix, be it ten or not,
denotes the same. Only where the digits, zeros in front included, are too many for a base that is
neither ten nor a power of two is there no token. -/
theorem tokenize_whole (keywords : KeywordTable) {r : Radix} {n : Nat} {c : Char}
    {rest point : List Char} (hn : n < Nat.pow 2 precision) (h : r.Writes n (c :: rest))
    (hc : c.isDigit = true) (hp : point ∈ Radix.endings) :
    (r.refuses (c :: rest).length = false →
      tokenize keywords r (String.ofList (c :: rest ++ point)) =
        .ok [⟨.number, .number (.ofMagnitude (.whole n hn)), .start⟩,
          .endOfInput (Location.start.advance (c :: rest ++ point))] ∧
      ∀ (s : Radix) (digits dot : List Char) (pos : Int), s.Writes n digits →
        s.refuses digits.length = false → dot ∈ Radix.endings →
        s.number (digits ++ dot) pos = r.number (c :: rest ++ point) pos) ∧
    (r.refuses (c :: rest).length = true →
      tokenize keywords r (String.ofList (c :: rest ++ point)) =
        .error (.tooManyDigits (c :: rest).length)) := by
  constructor
  · intro few
    have begins : (c.isDigit || c = '.') = true := by rw [hc, Bool.true_or]
    have numeral := (h.denotes hp).1
    constructor
    · exact tokenize_of_lexeme (.number begins ⟨numeral, nofun⟩ (h.number_eq hn few hp _)) rfl nofun
    intro s digits dot pos hs few' hd
    rw [hs.number_eq hn few' hd, h.number_eq hn few hp]
  · exact tokenize_of_refuses h hc hp

/-- The number 255, written in radix sixteen with digits of both cases, zeros and a point, is read
as it is in radix ten. -/
theorem tokenize_whole_hexadecimal :
    tokenize .standard .hexadecimal "00fF." =
      .ok [⟨.number, .number (.ofMagnitude (.whole 255 (by decide))), .start⟩,
        .endOfInput ⟨5, 1, 6⟩] ∧
    Radix.decimal.number ['2', '5', '5'] 0 =
      Radix.hexadecimal.number ['0', '0', 'f', 'F', '.'] 0 := by
  have writes : Radix.hexadecimal.Writes 255 ['0', '0', 'f', 'F'] :=
    ⟨nofun, [0, 0, 15, 15], by decide, by decide, by decide⟩
  have decimal : Radix.decimal.Writes 255 ['2', '5', '5'] :=
    ⟨nofun, [2, 5, 5], by decide, by decide, by decide⟩
  obtain ⟨token, same⟩ := (tokenize_whole .standard (by decide) writes (by decide)
    (List.mem_cons_of_mem _ List.mem_cons_self)).1 Radix.hexadecimal_refuses
  exact ⟨token, same .decimal _ [] 0 decimal rfl List.mem_cons_self⟩

/-- Zeros in front of a whole number can be too many, as they are in radix three for the number
one. -/
theorem not_tokenize_whole :
    ¬∀ (r : Radix) (n : Nat) (hn : n < Nat.pow 2 precision) (c : Char) (rest point : List Char),
      r.Writes n (c :: rest) → c.isDigit = true → point ∈ Radix.endings →
      tokenize .standard r (String.ofList (c :: rest ++ point)) =
        .ok [⟨.number, .number (.ofMagnitude (.whole n hn)), .start⟩,
          .endOfInput (Location.start.advance (c :: rest ++ point))] := by
  intro claim
  have one : Radix.ternary.Writes 1 ['1'] :=
    ⟨nofun, [1], by decide, by decide, by decide⟩
  have zeros : ∀ k, Radix.ternary.Writes 1 ('0' :: (List.replicate k '0' ++ ['1'])) :=
    fun k => one.replicate_append (k + 1)
  have many : Radix.ternary.refuses ('0' :: (List.replicate 4299 '0' ++ ['1'])).length = true := by
    rw [List.length_cons, List.length_append, List.length_replicate]
    decide
  have token := claim .ternary 1 (by decide) '0' (List.replicate 4299 '0' ++ ['1']) [] (zeros 4299)
    (by decide) List.mem_cons_self
  rw [tokenize_of_refuses (zeros 4299) (by decide) List.mem_cons_self many] at token
  cases token

end Quill
