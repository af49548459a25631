import Mathlib.Data.List.Forall2
import Quill.Proofs.Word

/-!
# Texts of words

A text sets out words if each of them is spelled in it, with blanks between them (`Layout`). A text
of words that fit is read as these words (`exists_tokenize_of_layout`), and so it is parsed as a
tree if their tokens derive one (`exists_parse_of_layout`).

The lexer leaves a gap before each token, so a text is cut before the blanks: a word is read with
those on its left, and what comes next begins with a blank or is empty.
-/

namespace Quill

open TokenReader

/-! ## Texts of words -/

/-- The text sets out the words: each of them is spelled in some way, and between any two of them
there are blanks. -/
inductive Layout : List Char → List Word → Prop
  | nil {blanks : List Char} : (∀ c ∈ blanks, isBlank c = true) → Layout blanks []
  | cons {blanks text after : List Char} {w : Word} {ws : List Word} :
      (∀ c ∈ blanks, isBlank c = true) → Spells text w → Apart after → Layout after ws →
      Layout (blanks ++ (text ++ after)) (w :: ws)

/-- The texts with single blanks between them. -/
def spaced (texts : List (List Char)) : List Char := [' '].intercalate texts

/-- The texts with a blank before each of them. -/
def blanked (texts : List (List Char)) : List Char := texts.flatMap (' ' :: ·)

/-- The first of some texts has no blank in front, and all others have one. -/
theorem spaced_cons (text : List Char) (texts : List (List Char)) :
    spaced (text :: texts) = text ++ blanked texts := by
  unfold spaced blanked
  induction texts generalizing text with
  | nil => simp
  | cons t ts ih => simpa using ih t

/-- Texts with blanks in front stand apart from what comes before them. -/
theorem apart_blanked (texts : List (List Char)) : Apart (blanked texts) := by
  cases texts <;> simp [blanked, Apart, isBlank]

/-- Words with single blanks in front are a layout of them. -/
theorem layout_blanked {texts : List (List Char)} {words : List Word}
    (h : List.Forall₂ Spells texts words) : Layout (blanked texts) words := by
  induction h with
  | nil => exact .nil (by simp [blanked])
  | @cons text w texts words htext _ ih =>
    have cut : blanked (text :: texts) = [' '] ++ (text ++ blanked texts) := by simp [blanked]
    have blank : ∀ c ∈ [' '], isBlank c = true := by simp [isBlank]
    rw [cut]
    exact .cons blank htext (apart_blanked texts) ih

/-- Single blanks are enough. -/
theorem layout_spaced {texts : List (List Char)} {words : List Word}
    (h : List.Forall₂ Spells texts words) : Layout (spaced texts) words := by
  cases h with
  | nil => exact .nil (by simp [spaced])
  | @cons text w texts words htext htexts =>
    have cut : spaced (text :: texts) = [] ++ (text ++ blanked texts) := spaced_cons text texts
    have none : ∀ c ∈ ([] : List Char), isBlank c = true := by simp
    rw [cut]
    exact .cons none htext (apart_blanked texts) (layout_blanked htexts)

namespace Lexer

/-- The lexer reads as the language does unless told otherwise. -/
def Standard (l : Lexer) : Prop := l.keywords = .standard ∧ l.radix = .decimal

/-- The next word is read back. -/
theorem advance_of_spells {l : Lexer} (hl : l.Standard) {blanks text after : List Char} {w : Word}
    (hr : l.cursor.rest = blanks ++ (text ++ after)) (hb : ∀ c ∈ blanks, isBlank c = true)
    (h : Spells text w) (ha : Apart after) (hs : SignFits (l.current.map (·.kind)) w.kind) :
    ∃ t l', advance l = .ok t l' ∧ t.word = w ∧ l'.Standard ∧
      l'.current.map (·.kind) = some w.kind ∧ l'.cursor.rest = after := by
  have lexeme : Lexeme .standard .decimal (l.current.map (·.kind)) after
      ⟨w.kind, w.value, (l.skip blanks).cursor.location⟩ text := h.lexeme ha hs
  rw [← hl.1, ← hl.2] at lexeme
  have read := advance_of_lexeme hr (.blanks hb) lexeme rfl
  exact ⟨_, _, read, rfl, hl, rfl, Cursor.rest_skip (Cursor.rest_skip hr)⟩

/-- Where nothing but blanks is left, only the end of the input is. -/
theorem tokensFrom_of_blanks {l : Lexer} (h : ∀ c ∈ l.cursor.rest, isBlank c = true) :
    ∃ t l', l.tokensFrom = .ok [t] l' ∧ t.word = .endOfInput := by
  have rest : l.skipGap.cursor.rest = [] := by
    have isGap : IsGap [] l.cursor.rest := .blanks h
    have gap_eq := isGap.gap_append nofun
    rw [List.append_nil] at gap_eq
    rw [skipGap, gap_eq]
    exact Cursor.rest_skip (List.append_nil _).symm
  have scan : l.nextScan = ⟨[], .ok (.endOfInput l.skipGap.cursor.location)⟩ := by
    rw [nextScan, rest, Scan.token]
  have read : ∃ l', advance l = .ok (.endOfInput l.skipGap.cursor.location) l' := by
    unfold advance
    rw [scan]
    exact ⟨_, rfl⟩
  obtain ⟨l', read⟩ := read
  exact ⟨_, l', tokensFrom_of_eof read rfl, rfl⟩

/-- No word that is spelled is the end of the input. -/
theorem kind_ne_eof_of_spells {text : List Char} {w : Word} (h : Spells text w) :
    w.kind ≠ .eof := by
  cases h <;> simp

/-- Words that fit are read back. -/
theorem tokensFrom_of_layout {text : List Char} {words : List Word} (h : Layout text words)
    {l : Lexer} (hl : l.Standard) (hr : l.cursor.rest = text)
    (hf : Fit (l.current.map (·.kind)) words) :
    ∃ ts l', l.tokensFrom = .ok ts l' ∧ ts.map Token.word = words ++ [.endOfInput] := by
  induction h generalizing l with
  | nil hb =>
    obtain ⟨t, l', h, hw⟩ := tokensFrom_of_blanks (by rwa [hr])
    exact ⟨[t], l', h, by simp [hw]⟩
  | @cons blanks text after w words hb htext ha _ ih =>
    obtain ⟨t, l₁, had, hw, hl₁, hc, hr₁⟩ := advance_of_spells hl hr hb htext ha hf.1
    obtain ⟨ts, l₂, hts, hws⟩ := ih hl₁ hr₁ (by rw [hc]; exact hf.2)
    have hk : t.kind ≠ .eof := by
      rw [show t.kind = w.kind from congrArg Word.kind hw]
      exact kind_ne_eof_of_spells htext
    exact ⟨t :: ts, l₂, tokensFrom_of_ne_eof had hk hts, by simp [hw, hws]⟩

end Lexer

/-- A text of words that fit has their tokens, with the end of the input after them. -/
theorem exists_tokenize_of_layout {text : List Char} {words : List Word} (h : Layout text words)
    (hf : Fit none words) :
    ∃ ts, tokenize .standard .decimal (String.ofList text) = .ok ts ∧
      ts.map Token.word = words ++ [.endOfInput] := by
  generalize hl : Lexer.ofSource .standard .decimal (String.ofList text) = l
  have standard : l.Standard := by
    rw [← hl]
    exact ⟨rfl, rfl⟩
  have rest : l.cursor.rest = text := by
    rw [← hl]
    exact String.toList_ofList
  have fit : Fit (l.current.map (·.kind)) words := by
    rw [← hl]
    exact hf
  obtain ⟨ts, l', ht, hw⟩ := Lexer.tokensFrom_of_layout h standard rest fit
  exact ⟨ts, by rw [tokenize_eq, hl, ht]; rfl, hw⟩

/-- At the end of the input the end is found. -/
theorem Tape.derives_end {u : Token} (hu : u.kind = .eof) :
    Rule.end_.Derives (Tape.mk [u]) () ⟨[u]⟩ := by
  have line : u.kind ≠ .op .lineEnd := by rw [hu]; decide
  exact .end_ (.noTerminators rfl line) ⟨rfl, Token.hasKind_of_eq hu, u, rfl⟩

/-- A text of words that fit is parsed as a tree if their tokens, with the end of the input after
them, derive one. -/
theorem exists_parse_of_layout {text : List Char} {words : List Word} {entry : Entry}
    {P : Node → Prop} (ht : Layout text words) (hf : Fit none words)
    (h : ∀ (ts : List Token) (u : Token), ts.map Token.word = words → u.kind = .eof →
      ∃ node s, P node ∧ (Rule.entry entry).Derives (Tape.mk (ts ++ [u])) node s) :
    ∃ node, parse .standard .decimal entry (String.ofList text) = .ok node ∧ P node := by
  obtain ⟨ts, tokens, hts⟩ := exists_tokenize_of_layout ht hf
  obtain ⟨ts, us, rfl, hw, hus⟩ := List.map_eq_append_iff.1 hts
  obtain ⟨u, us, rfl, hu, hn⟩ := List.map_eq_cons_iff.1 hus
  obtain rfl := List.map_eq_nil_iff.1 hn
  obtain ⟨node, s, hp, derives⟩ := h ts u hw (congrArg Word.kind hu)
  refine ⟨node, ?_, hp⟩
  rw [parse_eq_parseTokens KeywordTable.noEnd_standard tokens,
    parseTokens_eq_ok_iff (ended_of_tokenize KeywordTable.noEnd_standard tokens)]
  exact ⟨s, derives⟩

end Quill
