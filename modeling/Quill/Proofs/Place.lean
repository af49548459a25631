import Mathlib.Data.List.Induction
import Quill.Proofs.Joining
import Quill.Proofs.Moves

/-!
# Lines and columns agree with offsets

The line of a place in a text is one more than the line feeds before it, and its column is one more
than the characters after the last of those (`Location.ofOffset`). A cursor does not count them: it
adds to its line and its column as it takes characters, whatever takes them, and is set back where a
scan is undone or begun again. Still its line and column agree with its offset at all times, also
where a scan failed half-way, and so each token says correctly where it stands (`Lexer.Located`).

Each of the moves that requests are made of keeps this: taking more of what stands next adds to
the place what it adds to the text before it (`Location.ofOffset_add`), and a token is made where
the gap before it ends. The result is `outcomes_located`.
-/

namespace Quill

open TokenReader

/-! ## The place of an offset -/

namespace Location

/-- The place in a text after so many characters. -/
def ofOffset (text : List Char) (n : Nat) : Location :=
  let before := text.take n
  ⟨n, 1 + before.count '\n', 1 + (before.reverse.takeWhile (· ≠ '\n')).length⟩

/-- The column after a text that begins its first line. -/
theorem column_advance_start (text : List Char) :
    (start.advance text).column = 1 + (text.reverse.takeWhile (· ≠ '\n')).length := by
  induction text using List.reverseRecOn with
  | nil => rfl
  | append_singleton text c ih =>
    rw [advance_append, advance_cons, advance_nil, next, List.reverse_concat]
    split
    · rename_i h
      rw [List.takeWhile_cons_of_neg (by simp [h])]
      rfl
    · rename_i h
      rw [List.takeWhile_cons_of_pos (by simp [h]), List.length_cons, ih]
      push_cast
      omega

/-- To take characters one by one comes to the place of so many. -/
theorem ofOffset_eq_advance {text : List Char} {n : Nat} (h : n ≤ text.length) :
    ofOffset text n = start.advance (text.take n) := by
  have offset := offset_advance start (text.take n)
  have line := line_advance start (text.take n)
  have column := column_advance_start (text.take n)
  rw [List.length_take_of_le h] at offset
  generalize start.advance (text.take n) = place at offset line column ⊢
  obtain ⟨o, l, c⟩ := place
  simp only [start, Int.zero_add] at offset line column
  rw [offset, line, column, ofOffset]

/-- The last character of a text of two lines. -/
example : ofOffset ['a', '\n', 'b', 'c'] 3 = ⟨3, 2, 2⟩ := by decide

/-- What is taken of a text adds to the place what stands there. -/
theorem ofOffset_add {source text : List Char} {n : Nat} (hn : n ≤ source.length)
    (h : text <+: source.drop n) :
    n + text.length ≤ source.length ∧
      ofOffset source (n + text.length) = (ofOffset source n).advance text := by
  have bound : n + text.length ≤ source.length := by
    have fits := h.length_le
    rw [List.length_drop] at fits
    omega
  refine ⟨bound, ?_⟩
  rw [ofOffset_eq_advance bound, ofOffset_eq_advance hn, List.take_add, advance_append,
    ← List.prefix_iff_eq_take.1 h]

end Location

/-! ## Lexers and tokens -/

/-- The token stands somewhere in the text, with the line and the column of its offset. -/
def Token.StandsIn (text : List Char) (t : Token) : Prop :=
  ∃ n ≤ text.length, t.start = .ofOffset text n

/-- The lexer is at an offset of its text and at the line and column of that offset, and so was its
current token. -/
structure Lexer.Located (l : Lexer) : Prop where
  bound : l.cursor.offset ≤ l.source.length
  location : l.cursor.location = .ofOffset l.source l.cursor.offset
  current : ∀ t, l.current = some t → t.StandsIn l.source

/-- A token is made where the gap before it ends. -/
theorem Lexer.start_of_scan {l l' : Lexer} {t : Token} (h : advance l = .ok t l') :
    t.start = l.skipGap.cursor.location := by
  obtain ⟨scan, -⟩ := advance_eq_ok h
  rw [nextScan] at scan
  by_cases ended : l.skipGap.cursor.rest = []
  · rw [ended] at scan
    cases scan
    rfl
  · exact (Scan.cuts_token ended t scan).1

namespace Lexer.Located
variable {l l' : Lexer} {t : Token}

/-- At the beginning of any text. -/
theorem load (l : Lexer) (text : List Char) : (l.load text).Located :=
  ⟨Nat.zero_le _, rfl, fun _ h => nomatch h⟩

/-- To skip what comes next keeps the place right. -/
theorem skip (h : l.Located) {text : List Char} (ht : text <+: l.cursor.rest) :
    (l.skip text).Located := by
  obtain ⟨bound, place⟩ := Location.ofOffset_add h.bound ht
  refine ⟨bound, ?_, h.current⟩
  show (l.cursor.skip text).location = .ofOffset l.source (l.cursor.offset + text.length)
  rw [Cursor.location_skip, h.location, place]

/-- The next token stands in the text. -/
theorem standsIn_of_advance (h : l.Located) (ha : advance l = .ok t l') : t.StandsIn l.source := by
  have gap := h.skip (prefix_gap _)
  exact ⟨_, gap.bound, (start_of_scan ha).trans gap.location⟩

/-- To read a token keeps the place right. -/
theorem read (h : l.Located) (ha : advance l = .ok t l') : l'.Located := by
  have stands := h.standsIn_of_advance ha
  have taken := (h.skip (prefix_gap _)).skip l.prefix_nextScan
  obtain ⟨-, rfl⟩ := advance_eq_ok ha
  refine ⟨taken.bound, taken.location, ?_⟩
  rintro u ⟨⟩
  exact stands

/-- No move parts the line and the column from the offset. -/
theorem moves (h : l.Located) (hm : l.Moves l') : l'.Located := by
  induction hm with
  | refl => exact h
  | tail _ step ih =>
    cases step with
    | skip ht => exact ih.skip ht
    | rewind => exact load ..
    | read ha => exact ih.read ha

/-- To bind a text begins a new one, and to set the radix is no matter of places. -/
theorem configure (h : l.Located) (request : LexerRequest) : (request.configure l).Located := by
  cases request with
  | load text => exact load l text
  | setRadix base => exact ⟨h.bound, h.location, h.current⟩
  | _ => exact h

/-- Every request keeps the place right. -/
theorem perform (h : l.Located) (request : LexerRequest) : (request.perform l).state.Located :=
  (h.configure request).moves (request.moves l)

/-- All tokens that are read stand in the text. -/
theorem tokensFrom (h : l.Located) {ts : List Token} (hr : l.tokensFrom = .ok ts l') :
    ∀ t ∈ ts, t.StandsIn l.source := by
  refine tokensFrom_induction (motive := fun l ts => l.Located → ∀ t ∈ ts, t.StandsIn l.source)
    ?_ ?_ hr h
  · intro l l' t ha _ h
    simpa using h.standsIn_of_advance ha
  · intro l l₁ t ts ha _ ih h
    have source : l₁.source = l.source := (Move.read ha).sameText.source
    rw [source] at ih
    exact List.forall_mem_cons.2 ⟨h.standsIn_of_advance ha, ih (h.read ha)⟩

end Lexer.Located

/-! ## Sessions -/

namespace LexerRequest

/-- The tokens that a request has from the text, as its reply gives them. A scanner that is called
on its own is told where its token is to stand, so of such a token nothing can be said. -/
def tokensOf : LexerRequest → Reply → List Token
  | reset, .token t | advance, .token t | ahead, .token t | consume _, .token t => [t]
  | tokens, .tokens ts => ts
  | _, _ => []

/-- The tokens that a request has from the text stand there. -/
theorem standsIn_of_run {l l' : Lexer} (h : l.Located) {request : LexerRequest} {reply : Reply}
    (hr : request.run l = .ok reply l') :
    ∀ t ∈ request.tokensOf reply, t.StandsIn (request.configure l).source := by
  cases request with
  | reset =>
    obtain ⟨t, ha, rfl⟩ := map_eq_ok hr
    exact List.forall_mem_singleton.2 ((Lexer.Located.load l l.source).standsIn_of_advance ha)
  | advance =>
    obtain ⟨t, ha, rfl⟩ := map_eq_ok hr
    exact List.forall_mem_singleton.2 (h.standsIn_of_advance ha)
  | ahead =>
    obtain ⟨t, ha, rfl⟩ := map_eq_ok hr
    obtain ⟨-, after, ha⟩ := Lexer.ahead_eq_ok_iff.1 ha
    exact List.forall_mem_singleton.2 (h.standsIn_of_advance ha)
  | consume kind =>
    obtain ⟨t, hc, rfl⟩ := map_eq_ok hr
    exact List.forall_mem_singleton.2 (h.current t (Lexer.advance_of_consumed hc).1)
  | tokens =>
    obtain ⟨ts, hs, rfl⟩ := map_eq_ok hr
    exact (Lexer.Located.load l l.source).tokensFrom hs
  | _ => exact fun _ ht => nomatch ht

end LexerRequest

/-- In every session that begins with binding a text, whatever has been done with the lexer before:
after each request, whether or not it failed, the lexer is at an offset of its text and at the line
and column that the characters before that offset make, and each token that a request has from the
text carries the line and column of its own offset. -/
theorem outcomes_located (l : Lexer) (text : List Char) (requests : List LexerRequest) :
    List.Forall₂
      (fun request outcome =>
        outcome.state.Located ∧
        ∀ reply, outcome.reply = .ok reply →
          ∀ t ∈ request.tokensOf reply, t.StandsIn outcome.state.source)
      (.load text :: requests) (outcomes LexerRequest.perform (.load text :: requests) l) := by
  have bound := Lexer.Located.load l text
  refine .cons ⟨bound, ?_⟩ (forall₂_outcomes ?_ requests bound)
  · rintro reply ⟨⟩ t ht
    cases ht
  · intro request l h
    have state := h.perform request
    refine ⟨state, state, fun reply hr => ?_⟩
    obtain ⟨l', hr⟩ := LexerRequest.exists_run_of_reply hr
    rw [(request.moves l).sameText.source]
    exact LexerRequest.standsIn_of_run h hr

end Quill
