import Mathlib.Control.Monad.Basic
import Mathlib.Logic.ExistsUnique
import Quill.Proofs.Feed

/-!
# The tokens of a text tile it

The tokens of a text lie in it one after another, each as long as can be, and only gaps are between
them (`tokenize_tiles`). So every character is in the lexeme of one token or in one gap, and in
nothing else.

How a text is cut is given by two sequences of offsets (`Tiling`): where the tokens begin, and where
the gaps before them do. One step of the lexer puts a gap and a lexeme in front of the tiling of
what follows (`Tiling.cons`), and the end of the input comes after a last gap (`Tiling.single`).
-/

namespace Quill

open TokenReader

/-! ## Tilings -/

/-- The kind of the token before the one with an index; `previous` is before the first one. -/
def kindBefore (previous : Option Kind) (ts : List Token) : Nat → Option Kind
  | 0 => previous
  | i + 1 => ts[i]?.map (·.kind)

/-- The tokens tile the text from the offset on, after a token of the kind `previous`. The one with
index `i` has its lexeme from `start i` up to `stop (i + 1)`, and the gap from `stop i` up to there
before it. The last one is the end of the input, which has no lexeme. -/
structure Tiling (keywords : KeywordTable) (r : Radix) (cs : List Char) (previous : Option Kind)
    (offset : Nat) (ts : List Token) (start stop : Nat → Nat) : Prop where
  begins : stop 0 = offset
  ends : ∃ t, ts.getLast? = some t ∧ t.kind = .eof ∧ t.pos = cs.length
  gap : ∀ (i : Nat) t, ts[i]? = some t → t.pos = start i ∧ stop i ≤ start i ∧
    IsGap (cs.drop (start i)) (cs.extract (stop i) (start i))
  lexeme : ∀ (i : Nat) t, i + 1 < ts.length → ts[i]? = some t →
    t.kind ≠ .eof ∧ start i < stop (i + 1) ∧ Lexeme keywords r (kindBefore previous ts i)
      (cs.drop (stop (i + 1))) t (cs.extract (start i) (stop (i + 1)))

/-- A sequence with one more number in front. -/
def prepend (a : Nat) (f : Nat → Nat) : Nat → Nat
  | 0 => a
  | i + 1 => f i

/-- A text that stands at an offset is what is cut out there. -/
theorem extract_of_drop {cs text after : List Char} {a : Nat} (h : cs.drop a = text ++ after) :
    cs.extract a (a + text.length) = text ∧ cs.drop (a + text.length) = after := by
  constructor
  · rw [List.extract_eq_take_drop, h, Nat.add_sub_cancel_left, List.take_left]
  · rw [← List.drop_drop, h, List.drop_left]

/-- No lexeme is empty. -/
theorem Lexeme.length_pos {keywords : KeywordTable} {r : Radix} {previous : Option Kind}
    {after text : List Char} {t : Token} (h : Lexeme keywords r previous after t text) :
    0 < text.length := by
  cases h with
  | op mem =>
    have all : ∀ e ∈ Operator.lexemes, 0 < e.1.length := by decide
    exact all _ mem
  | _ => simp

namespace Tiling
variable {keywords : KeywordTable} {r : Radix} {cs text piece after : List Char}
  {previous : Option Kind} {offset : Nat} {t : Token} {ts : List Token} {start stop : Nat → Nat}

/-- At the end of the input there is a last gap. -/
theorem single (bound : offset ≤ cs.length) (rest : cs.drop offset = text) (hg : IsGap [] text)
    (ht : t.kind = .eof) (pos : t.pos = offset + text.length) :
    Tiling keywords r cs previous offset [t] (fun _ => offset + text.length)
      (prepend offset fun _ => offset + text.length) where
  begins := rfl
  ends := by
    have length : (cs.drop offset).length = text.length := by rw [rest]
    rw [List.length_drop] at length
    exact ⟨t, rfl, ht, by omega⟩
  gap := by
    obtain ⟨piece, after⟩ := extract_of_drop (rest.trans (List.append_nil text).symm)
    intro i u hu
    cases i with
    | zero =>
      cases hu
      refine ⟨pos, Nat.le_add_right .., ?_⟩
      rw [after]
      exact piece.symm ▸ hg
    | succ i => cases hu
  lexeme := by
    intro i u hi
    exact absurd hi (by simp)

/-- A gap and a lexeme in front of a tiling. -/
theorem cons (rest : cs.drop offset = piece ++ (text ++ after)) (hg : IsGap (text ++ after) piece)
    (hl : Lexeme keywords r previous after t text) (ht : t.kind ≠ .eof)
    (pos : t.pos = offset + piece.length)
    (h : Tiling keywords r cs (some t.kind) (offset + piece.length + text.length) ts start stop) :
    Tiling keywords r cs previous offset (t :: ts) (prepend (offset + piece.length) start)
      (prepend offset stop) where
  begins := rfl
  ends := by
    obtain ⟨u, hu, ends⟩ := h.ends
    refine ⟨u, ?_, ends⟩
    rw [List.getLast?_cons, hu]
    rfl
  gap := by
    obtain ⟨before, following⟩ := extract_of_drop rest
    intro i u hu
    cases i with
    | zero =>
      cases hu
      refine ⟨pos, Nat.le_add_right .., ?_⟩
      show IsGap (cs.drop (offset + piece.length)) (cs.extract offset (offset + piece.length))
      rw [before, following]
      exact hg
    | succ i => exact h.gap i u hu
  lexeme := by
    obtain ⟨-, following⟩ := extract_of_drop rest
    obtain ⟨here, beyond⟩ := extract_of_drop following
    intro i u hi hu
    cases i with
    | zero =>
      cases hu
      show t.kind ≠ .eof ∧ offset + piece.length < stop 0 ∧
        Lexeme keywords r previous (cs.drop (stop 0)) t
          (cs.extract (offset + piece.length) (stop 0))
      rw [h.begins, here, beyond]
      exact ⟨ht, Nat.lt_add_of_pos_right hl.length_pos, hl⟩
    | succ i =>
      have tail := h.lexeme i u (by simpa using hi) hu
      cases i <;> exact tail

end Tiling

/-! ## Tiles -/

/-- A tile: the gap before the token with an index, or its lexeme. -/
inductive Tile where
  | gap (i : Nat)
  | lexeme (i : Nat)

namespace Tile

/-- Whether the tile is one of a tiling whose last token, without a lexeme, has the index `n`. -/
def Within (n : Nat) : Tile → Prop
  | gap i => i ≤ n
  | lexeme i => i < n

/-- Whether the tile holds the character at an offset. -/
def Holds (start stop : Nat → Nat) (offset : Nat) : Tile → Prop
  | gap i => stop i ≤ offset ∧ offset < start i
  | lexeme i => start i ≤ offset ∧ offset < stop (i + 1)

variable {start stop : Nat → Nat} {n offset : Nat} {p : Tile}

/-- With one more token there is one more gap and one more lexeme. -/
theorem Within.of_succ (h : p.Within (n + 1)) : p = gap (n + 1) ∨ p = lexeme n ∨ p.Within n := by
  cases p with
  | gap i =>
    rcases Nat.le_succ_iff.1 h with h | rfl
    · exact .inr (.inr h)
    · exact .inl rfl
  | lexeme i =>
    rcases Nat.lt_succ_iff_lt_or_eq.1 h with h | rfl
    · exact .inr (.inr h)
    · exact .inr (.inl rfl)

/-- The tiles end where the last token begins. -/
theorem Holds.lt_start (gaps : ∀ i ≤ n, stop i ≤ start i)
    (lexemes : ∀ i < n, start i ≤ stop (i + 1)) (hw : p.Within n)
    (h : p.Holds start stop offset) : offset < start n := by
  induction n with
  | zero =>
    cases p with
    | gap i =>
      obtain rfl : i = 0 := Nat.le_zero.1 hw
      exact h.2
    | lexeme i => exact absurd hw (Nat.not_lt_zero i)
  | succ n ih =>
    have gap := gaps (n + 1) (Nat.le_refl _)
    rcases hw.of_succ with rfl | rfl | hw
    · exact h.2
    · exact Nat.lt_of_lt_of_le h.2 gap
    · have before := ih (fun i hi => gaps i (by omega)) (fun i hi => lexemes i (by omega)) hw
      exact Nat.lt_of_lt_of_le before (Nat.le_trans (lexemes n n.lt_succ_self) gap)

/-- Tiles that lie one after another hold each character once. -/
theorem existsUnique_holds (gaps : ∀ i ≤ n, stop i ≤ start i)
    (lexemes : ∀ i < n, start i ≤ stop (i + 1)) (ge : stop 0 ≤ offset) (lt : offset < start n) :
    ∃! p : Tile, p.Within n ∧ p.Holds start stop offset := by
  induction n with
  | zero =>
    refine ⟨gap 0, ⟨Nat.le_refl 0, ge, lt⟩, ?_⟩
    rintro (i | i) ⟨hw, -⟩
    · rw [Nat.le_zero.1 hw]
    · exact absurd hw (Nat.not_lt_zero i)
  | succ n ih =>
    have gaps' : ∀ i ≤ n, stop i ≤ start i := fun i hi => gaps i (by omega)
    have lexemes' : ∀ i < n, start i ≤ stop (i + 1) := fun i hi => lexemes i (by omega)
    have last := lexemes n n.lt_succ_self
    by_cases before : offset < start n
    · obtain ⟨p, ⟨hw, hp⟩, unique⟩ := ih gaps' lexemes' before
      refine ⟨p, ⟨?_, hp⟩, ?_⟩
      · cases p with
        | gap i => exact Nat.le_succ_of_le hw
        | lexeme i => exact Nat.lt_succ_of_lt hw
      · rintro q ⟨hq, h⟩
        rcases hq.of_succ with rfl | rfl | hq
        · exact absurd h.1 (by omega)
        · exact absurd h.1 (by omega)
        · exact unique q ⟨hq, h⟩
    have none : ∀ q : Tile, q.Within n → ¬q.Holds start stop offset := fun q hq h =>
      before (h.lt_start gaps' lexemes' hq)
    by_cases inside : offset < stop (n + 1)
    · refine ⟨lexeme n, ⟨n.lt_succ_self, by omega, inside⟩, ?_⟩
      rintro q ⟨hq, h⟩
      rcases hq.of_succ with rfl | rfl | hq
      · exact absurd h.1 (by omega)
      · rfl
      · exact absurd h (none q hq)
    · refine ⟨gap (n + 1), ⟨Nat.le_refl (n + 1), by omega, lt⟩, ?_⟩
      rintro q ⟨hq, h⟩
      rcases hq.of_succ with rfl | rfl | hq
      · rfl
      · exact absurd h.2 inside
      · exact absurd h (none q hq)

end Tile

/-- Every character of a text that is tiled is in one tile and in no other one. -/
theorem Tiling.existsUnique_tile {keywords : KeywordTable} {r : Radix} {cs : List Char}
    {previous : Option Kind} {offset j : Nat} {ts : List Token} {start stop : Nat → Nat}
    (h : Tiling keywords r cs previous offset ts start stop) (ge : offset ≤ j)
    (lt : j < cs.length) :
    ∃! p : Tile, p.Within (ts.length - 1) ∧ p.Holds start stop j := by
  obtain ⟨t, last, -, pos⟩ := h.ends
  rw [List.getLast?_eq_getElem?] at last
  have nonempty : ts.length - 1 < ts.length := (List.getElem?_eq_some_iff.1 last).1
  have length : (cs.length : Int) = start (ts.length - 1) := pos.symm.trans (h.gap _ t last).1
  refine Tile.existsUnique_holds (fun i hi => ?_) (fun i hi => ?_) ?_ ?_
  · exact (h.gap i ts[i] (List.getElem?_eq_getElem (by omega))).2.1
  · exact Nat.le_of_lt (h.lexeme i ts[i] (by omega) (List.getElem?_eq_getElem (by omega))).2.1
  · exact h.begins ▸ ge
  · omega

/-! ## Reading -/

/-- The tokens that are read up to the end of the input tile what there was to be read. -/
theorem Lexer.exists_tiling {l l' : Lexer} {ts : List Token} (hk : l.keywords.NoEnd)
    (bound : l.cursor.offset ≤ l.source.length) (h : l.tokensFrom = .ok ts l') :
    ∃ start stop, Tiling l.keywords l.radix l.source (l.current.map (·.kind)) l.cursor.offset ts
      start stop := by
  refine tokensFrom_induction (motive := fun l ts => l.keywords.NoEnd →
    l.cursor.offset ≤ l.source.length → ∃ start stop, Tiling l.keywords l.radix l.source
      (l.current.map (·.kind)) l.cursor.offset ts start stop) ?_ ?_ h hk bound
  · intro l l' t ha ht hk bound
    obtain ⟨piece, text, after, rest, isGap, pos, rfl, ⟨nil, -⟩ | lexeme⟩ :=
      exists_pieces_of_advance ha
    · rw [nil] at rest isGap
      rw [List.append_nil] at rest
      exact ⟨_, _, .single bound rest isGap ht (by simpa using pos)⟩
    · exact absurd ht (lexeme.kind_ne_eof hk)
  · intro l l₁ t ts ha ht ih hk bound
    obtain ⟨piece, text, after, rest, isGap, pos, rfl, ⟨-, end_⟩ | lexeme⟩ :=
      exists_pieces_of_advance ha
    · exact absurd end_ ht
    · have length : (l.source.drop l.cursor.offset).length = _ := congrArg List.length rest
      simp only [List.length_drop, List.length_append] at length
      have bound' : l.cursor.offset + piece.length + text.length ≤ l.source.length := by
        omega
      obtain ⟨start, stop, tiling⟩ := ih hk bound'
      exact ⟨_, _, tiling.cons rest isGap lexeme ht (by simpa using pos)⟩

/-- The tokens of a text tile it, each as long as can be, so every character of it is in the lexeme
of one token or in one gap. -/
theorem tokenize_tiles {keywords : KeywordTable} (hk : keywords.NoEnd) (r : Radix) (source : String)
    {ts : List Token} (h : tokenize keywords r source = .ok ts) :
    ∃ start stop, Tiling keywords r source.toList none 0 ts start stop ∧
      ∀ j < source.toList.length,
        ∃! p : Tile, p.Within (ts.length - 1) ∧ p.Holds start stop j := by
  rw [tokenize_eq, outcome_eq_ok_iff] at h
  obtain ⟨l, h⟩ := h
  obtain ⟨start, stop, tiling⟩ := Lexer.exists_tiling hk (Nat.zero_le _) h
  exact ⟨start, stop, tiling, fun j lt => tiling.existsUnique_tile (Nat.zero_le j) lt⟩

/-- The comment at the end of the text is in the gap before the end of the input. -/
theorem tokenize_tiles_comment : ∃ ts start stop,
    tokenize .standard .decimal "a>=.5 # b" = .ok ts ∧ ts.length = 4 ∧
      Tiling .standard .decimal "a>=.5 # b".toList none 0 ts start stop ∧
      ∀ j < "a>=.5 # b".toList.length,
        ∃! p : Tile, p.Within (ts.length - 1) ∧ p.Holds start stop j := by
  have tokens : tokenize .standard .decimal "a>=.5 # b" = .ok [⟨.ident, .text "a", ⟨0, 1, 1⟩⟩,
      ⟨.op .ge, .text ">=", ⟨1, 1, 2⟩⟩, ⟨.number, .number (.ofMagnitude (.ofRatio 1 2)), ⟨3, 1, 4⟩⟩,
      ⟨.eof, .text "EOF", ⟨9, 1, 10⟩⟩] := by decide +kernel
  obtain ⟨start, stop, tiling, tiles⟩ :=
    tokenize_tiles KeywordTable.noEnd_standard .decimal "a>=.5 # b" tokens
  exact ⟨_, start, stop, tokens, rfl, tiling, tiles⟩

end Quill
