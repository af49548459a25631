import Quill.Proofs.Feed
import Quill.Proofs.Written

/-!
# The yield of a tree

The yield of a tree is what its text has to say, in order: the tokens that the tree holds, and the
words that go with its nodes (`Node.yield`). Whether it is what remains of a list of tokens when
terminators, power signs, commas before a parenthesis and the end of the input are left out is said
by `Kept`.

A stretch of tokens is covered by a list of pieces if these are kept of it, whatever comes next, and
the brackets in it are balanced (`Covered`). Stretches are put together as the rules of the grammar
put their parts together.
-/

namespace Quill

open TokenReader

/-! ## Yields -/

/-- A part of a text: a token that the tree holds, or a word that the tree only stands for. -/
inductive Piece where
  | token (t : Token)
  | word (w : Word)

/-- Whether the piece is the token. A token that the tree holds is that very token. -/
def Piece.Is : Piece → Token → Prop
  | token t, u => t = u
  | word w, u => u.word = w

/-- The piece of an operator. -/
abbrev Operator.piece (o : Operator) : Piece := .word o.asWord

/-- The piece of a reserved word. -/
abbrev Keyword.piece (k : Keyword) : Piece := .word k.asWord

/-- The lists with commas between them. -/
def commas (lists : List (List Piece)) : List Piece := [Operator.comma.piece].intercalate lists

/-- A single list has no comma. -/
theorem commas_singleton (x : List Piece) : commas [x] = x := by
  simp [commas, List.intercalate]

/-- Between two lists stands a comma. -/
theorem commas_cons_cons (x y : List Piece) (xs : List (List Piece)) :
    commas (x :: y :: xs) = x ++ Operator.comma.piece :: commas (y :: xs) := by
  simp [commas, List.intercalate]

mutual

/-- The pieces of an expression. -/
def Expr.yield : Expr → List Piece
  | .leaf k v _ => k.kind?.toList.map fun kind => .word ⟨kind, v⟩
  | .call c _ => c.yield
  | .group e _ => Operator.lparen.piece :: e.yield ++ [Operator.rparen.piece]
  | .binary op l r _ => l.yield ++ .token op :: r.yield
  | .unary op e _ => .token op :: e.yield

/-- The pieces of a call. -/
def Call.yield : Call → List Piece
  | ⟨name, args, _⟩ => .token name :: args.yield

/-- The pieces of arguments with their parentheses. -/
def Args.yield : Args → List Piece
  | ⟨items, _⟩ => Operator.lparen.piece :: commas (yieldItems items) ++ [Operator.rparen.piece]

/-- The pieces of each of the expressions. -/
def yieldItems : List Expr → List (List Piece)
  | [] => []
  | e :: es => e.yield :: yieldItems es

end

/-- The pieces of names with commas between them. -/
def yieldNames (names : List Token) : List Piece := commas (names.map fun n => [.token n])

/-- The pieces of a parameter list. -/
def Params.yield (p : Params) : List Piece :=
  Operator.lparen.piece :: yieldNames p.names ++ [Operator.rparen.piece]

mutual

/-- The pieces of a statement. -/
def Statement.yield : Statement → List Piece
  | .scope b => b.yield
  | .expr e _ => e.yield
  | .assign t e _ => .token t :: Operator.assign.piece :: e.yield
  | .ret none _ => [Keyword.return_.piece]
  | .ret (some e) _ => Keyword.return_.piece :: e.yield
  | .branch b => b.yield
  | .function f _ => f.yield
  | .empty _ => []

/-- The pieces of a scope. -/
def Scope.yield : Scope → List Piece
  | ⟨ss, _⟩ => Operator.lbrace.piece :: yieldStatements ss ++ [Operator.rbrace.piece]

/-- The pieces of statements one after another. -/
def yieldStatements : List Statement → List Piece
  | [] => []
  | s :: ss => s.yield ++ yieldStatements ss

/-- The pieces of a clause without its keyword. -/
def Clause.yield : Clause → List Piece
  | ⟨c, s, _⟩ => c.yield ++ s.yield

/-- The pieces of the further clauses of a branch. -/
def yieldClauses : List Clause → List Piece
  | [] => []
  | c :: cs => Keyword.elif.piece :: (c.yield ++ yieldClauses cs)

/-- The pieces of a branch. -/
def Branch.yield : Branch → List Piece
  | ⟨c, cs, s, _⟩ => Keyword.if_.piece :: (c.yield ++ (yieldClauses cs ++ yieldOtherwise s))

/-- The pieces of the end of a branch. -/
def yieldOtherwise : Option Statement → List Piece
  | none => []
  | some s => Keyword.else_.piece :: s.yield

/-- The pieces of a function. -/
def Function.yield : Function → List Piece
  | ⟨name, params, body, _⟩ => Keyword.fn.piece :: .token name :: (params.yield ++ body.yield)

end

/-- The pieces of functions one after another. -/
def yieldFunctions : List Function → List Piece
  | [] => []
  | f :: fs => f.yield ++ yieldFunctions fs

/-- The pieces of a tree. -/
def Node.yield : Node → List Piece
  | .expr e => e.yield
  | .call c => c.yield
  | .args a => a.yield
  | .params p => p.yield
  | .statement s => s.yield
  | .clause c => c.yield
  | .function f => f.yield
  | .program p => yieldFunctions p.functions

/-! ## Tokens and the pieces kept of them -/

/-- The pieces are what remains of the tokens, the last of which is the end of the input, when some
terminators, power signs and commas before a closing parenthesis are left out. -/
inductive Kept : List Token → List Piece → Prop
  | ended {t : Token} : t.kind = .eof → Kept [t] []
  | keep {p : Piece} {t : Token} {ts : List Token} {ps : List Piece} : p.Is t → Kept ts ps →
      Kept (t :: ts) (p :: ps)
  | lineEnd {t : Token} {ts : List Token} {ps : List Piece} : t.kind = .op .lineEnd → Kept ts ps →
      Kept (t :: ts) ps
  | power {t : Token} {ts : List Token} {ps : List Piece} : t.kind = .op .pow → Kept ts ps →
      Kept (t :: ts) ps
  | comma {t u : Token} {ts : List Token} {ps : List Piece} : t.kind = .op .comma →
      u.kind = .op .rparen → Kept (u :: ts) ps → Kept (t :: u :: ts) ps

/-- The brackets with those that close them. -/
def Operator.brackets : List (Operator × Operator) := [(lparen, rparen), (lbrace, rbrace)]

/-- The kinds of brackets. -/
def Kind.brackets : List Kind := [op .lparen, op .rparen, op .lbrace, op .rbrace]

/-- Whether each bracket is closed by one of its own. -/
inductive Balanced : List Token → Prop
  | nil : Balanced []
  | token {t : Token} {ts : List Token} : t.kind ∉ Kind.brackets → Balanced ts → Balanced (t :: ts)
  | between {o o' : Operator} {t t' : Token} {inner rest : List Token} :
      (o, o') ∈ Operator.brackets → t.kind = .op o → Balanced inner → t'.kind = .op o' →
      Balanced rest → Balanced (t :: (inner ++ t' :: rest))

/-- Balanced tokens after balanced ones are balanced. -/
theorem Balanced.append {ts us : List Token} (ht : Balanced ts) (hu : Balanced us) :
    Balanced (ts ++ us) := by
  induction ht with
  | nil => exact hu
  | token hb _ ih => exact .token hb ih
  | between hm ho hi hc _ _ ih =>
    rw [List.cons_append, List.append_assoc]
    exact .between hm ho hi hc ih

/-- Whether the token is one that the standard table of reserved words knows: it stands for no class
of tokens, and apart from terminators its kind tells its value unless it is a name or a literal. -/
structure Token.Proper (t : Token) : Prop where
  kind_ne_anyOp : t.kind ≠ .anyOp
  word_of_op {o : Operator} : t.kind = .op o → o ≠ .lineEnd → t.word = o.asWord
  word_of_keyword {k : Keyword} : t.kind = .keyword k → t.word = k.asWord

/-- Whether the tokens are proper and the last one, and no other, is the end of the input. -/
inductive Complete : List Token → Prop
  | ended {t : Token} : t.kind = .eof → Complete [t]
  | token {t : Token} {ts : List Token} : t.Proper → t.kind ≠ .eof → Complete ts →
      Complete (t :: ts)

section
variable {s s₁ s₂ s' : Tape} {t : Token} {kind : Kind}

/-- What is consumed before the end is the first token. -/
theorem Complete.consumes (h : Complete s.tokens) (hc : Consumes kind s t s')
    (ht : t.kind ≠ .eof) : s.tokens = t :: s'.tokens ∧ Complete s'.tokens ∧ t.Proper := by
  obtain ⟨current, -, u, advance⟩ := hc
  obtain ⟨ts⟩ := s
  cases h with
  | ended he =>
    cases current
    exact absurd he ht
  | @token t ts hp _ hts =>
    cases current
    rcases Tape.advance_eq_ok advance with ⟨h₁, -⟩ | ⟨u, us, h₁, h₂⟩
    · cases h₁
      cases hts
    · cases h₁
      rw [h₂]
      exact ⟨rfl, hts, hp⟩

/-- A token that is consumed is of the kind asked for. -/
theorem Complete.kind_eq (h : Complete s.tokens) (hc : Consumes kind s t s') (hk : kind ≠ .anyOp) :
    t.kind = kind := by
  obtain ⟨current, has, -⟩ := hc
  have proper : t.kind ≠ .anyOp := by
    obtain ⟨ts⟩ := s
    cases h with
    | ended he =>
      cases current
      rw [he]
      nofun
    | token hp _ _ =>
      cases current
      exact hp.kind_ne_anyOp
  rw [Token.hasKind, if_neg (by simp [hk, proper])] at has
  exact of_decide_eq_true has

/-- Where the end of the input is current, nothing else is left. -/
theorem Complete.eq_singleton (h : Complete s.tokens) (hc : current? s = some t)
    (ht : t.kind = .eof) : s.tokens = [t] := by
  obtain ⟨ts⟩ := s
  cases h with
  | ended _ =>
    cases hc
    rfl
  | token _ hn _ =>
    cases hc
    exact absurd ht hn

/-! ## Stretches of tokens -/

/-- Of the tokens from one tape to the other the pieces are kept, and the brackets in them are
balanced. -/
structure Covered (s : Tape) (ys : List Piece) (s' : Tape) : Prop where
  complete : Complete s'.tokens
  kept {ps : List Piece} : Kept s'.tokens ps → Kept s.tokens (ys ++ ps)
  balanced : ∃ ts, s.tokens = ts ++ s'.tokens ∧ Balanced ts

namespace Covered
variable {ys zs : List Piece}

/-- No pieces lead from a tape to itself. -/
theorem refl (h : Complete s.tokens) : Covered s [] s := ⟨h, id, [], rfl, .nil⟩

/-- One stretch after another. -/
theorem trans (h₁ : Covered s ys s₁) (h₂ : Covered s₁ zs s') : Covered s (ys ++ zs) s' where
  complete := h₂.complete
  kept hk := by
    rw [List.append_assoc]
    exact h₁.kept (h₂.kept hk)
  balanced := by
    obtain ⟨ts, ht, bt⟩ := h₁.balanced
    obtain ⟨us, hu, bu⟩ := h₂.balanced
    exact ⟨ts ++ us, by rw [ht, hu, List.append_assoc], bt.append bu⟩

/-- A stretch of which nothing is kept after another one. -/
theorem before (h₁ : Covered s ys s₁) (h₂ : Covered s₁ [] s') : Covered s ys s' := by
  have all := h₁.trans h₂
  rwa [List.append_nil] at all

/-- A token that is kept. -/
theorem keep {p : Piece} (h : Complete s.tokens) (hc : Consumes kind s t s')
    (ht : t.kind ∉ .eof :: Kind.brackets) (hp : t.Proper → p.Is t) : Covered s [p] s' := by
  simp only [List.mem_cons, not_or] at ht
  obtain ⟨tokens, complete, proper⟩ := h.consumes hc ht.1
  refine ⟨complete, fun hk => ?_, [t], tokens, .token ?_ .nil⟩
  · rw [tokens]
    exact .keep (hp proper) hk
  · simpa only [Kind.brackets, List.mem_cons, not_or] using ht.2

/-- A token that the tree holds. -/
theorem token (h : Complete s.tokens) (hc : Consumes kind s t s')
    (ht : t.kind ∉ .eof :: Kind.brackets) : Covered s [.token t] s' :=
  keep h hc ht fun _ => rfl

/-- A token that is left out. -/
theorem drop (h : Complete s.tokens) (hc : Consumes kind s t s')
    (ht : t.kind ∉ .eof :: Kind.brackets)
    (hk : ∀ {ps}, Kept s'.tokens ps → Kept (t :: s'.tokens) ps) : Covered s [] s' := by
  simp only [List.mem_cons, not_or] at ht
  obtain ⟨tokens, complete, -⟩ := h.consumes hc ht.1
  refine ⟨complete, fun hp => ?_, [t], tokens, .token ?_ .nil⟩
  · rw [tokens]
    exact hk hp
  · simpa only [Kind.brackets, List.mem_cons, not_or] using ht.2

/-- A word that goes with a node. -/
theorem op {o : Operator} (h : Complete s.tokens) (hc : Consumes (.op o) s t s')
    (ho : Kind.op o ∉ Kind.op .lineEnd :: Kind.brackets) : Covered s [o.piece] s' := by
  have hk : t.kind = .op o := h.kind_eq hc nofun
  simp only [List.mem_cons, not_or] at ho
  refine keep h hc ?_ fun proper => proper.word_of_op hk fun he => ho.1 (by rw [he])
  rw [hk]
  simpa only [List.mem_cons, not_or] using ⟨nofun, ho.2⟩

/-- A reserved word that goes with a node. -/
theorem keyword {k : Keyword} (h : Complete s.tokens) (hc : Consumes (.keyword k) s t s') :
    Covered s [k.piece] s' := by
  have hk : t.kind = .keyword k := h.kind_eq hc nofun
  refine keep h hc ?_ fun proper => proper.word_of_keyword hk
  rw [hk]
  simp [Kind.brackets]

/-- A token that a leaf is made of. -/
theorem leaf (h : Complete s.tokens) (hc : Consumes kind s t s') (hk : t.kind = kind)
    (hb : kind ∉ .eof :: Kind.brackets) : Covered s [.word ⟨kind, t.value⟩] s' :=
  keep h hc (by rwa [hk]) fun _ => by rw [Piece.Is, Token.word, hk]

/-- A terminator is left out. -/
theorem lineEnd (h : Complete s.tokens) (hc : Consumes (.op .lineEnd) s t s') :
    Covered s [] s' := by
  have hk : t.kind = .op .lineEnd := h.kind_eq hc nofun
  exact drop h hc (by rw [hk]; decide) (.lineEnd hk)

/-- A power sign that has no operand on its left is left out. -/
theorem power (h : Complete s.tokens) (hc : Consumes (.op .pow) s t s') : Covered s [] s' := by
  have hk : t.kind = .op .pow := h.kind_eq hc nofun
  exact drop h hc (by rw [hk]; decide) (.power hk)

/-- A comma before a closing parenthesis is left out. -/
theorem comma {u : Token} (h : Complete s.tokens) (hc : Consumes (.op .comma) s t s')
    (hu : current? s' = some u) (hr : u.kind = .op .rparen) : Covered s [] s' := by
  have hk : t.kind = .op .comma := h.kind_eq hc nofun
  refine drop h hc (by rw [hk]; decide) fun {ps} kept => ?_
  obtain ⟨ts⟩ := s'
  cases ts with
  | nil => cases hu
  | cons v vs =>
    cases hu
    exact .comma hk hr kept

/-- What stands between brackets. -/
theorem between {o o' : Operator} {t' : Token} (hb : (o, o') ∈ Operator.brackets)
    (h : Complete s.tokens) (ho : Consumes (.op o) s t s₁)
    (hi : Complete s₁.tokens → Covered s₁ ys s₂) (hc : Consumes (.op o') s₂ t' s') :
    Covered s (o.piece :: ys ++ [o'.piece]) s' := by
  have brackets : ∀ b ∈ Operator.brackets, b.1 ≠ .lineEnd ∧ b.2 ≠ .lineEnd := by decide
  obtain ⟨line, line'⟩ := brackets _ hb
  have hk : t.kind = .op o := h.kind_eq ho nofun
  obtain ⟨tokens, complete, proper⟩ := h.consumes ho (by rw [hk]; nofun)
  have inner := hi complete
  have hk' : t'.kind = .op o' := inner.complete.kind_eq hc nofun
  obtain ⟨tokens', complete', proper'⟩ := inner.complete.consumes hc (by rw [hk']; nofun)
  refine ⟨complete', fun {ps} kept => ?_, ?_⟩
  · have rest : Kept s₂.tokens (o'.piece :: ps) := by
      rw [tokens']
      exact .keep (proper'.word_of_op hk' line') kept
    have words : o.piece :: ys ++ [o'.piece] ++ ps = o.piece :: (ys ++ o'.piece :: ps) := by simp
    rw [tokens, words]
    exact .keep (proper.word_of_op hk line) (inner.kept rest)
  · obtain ⟨ts, ht, bt⟩ := inner.balanced
    refine ⟨t :: (ts ++ [t']), ?_, .between hb hk bt hk' .nil⟩
    rw [tokens, ht, tokens']
    simp

/-- An item of a list with a comma after it, and the items after that. -/
theorem list {x : List Piece} {xs : List (List Piece)} (hx : Covered s x s₁)
    (hc : Consumes (.op .comma) s₁ t s₂) (hxs : Complete s₂.tokens → Covered s₂ (commas xs) s')
    (hl : xs = [] → ∃ u, current? s₂ = some u ∧ u.kind = .op .rparen) :
    Covered s (commas (x :: xs)) s' := by
  cases xs with
  | nil =>
    obtain ⟨u, hu, hr⟩ := hl rfl
    have dropped := comma hx.complete hc hu hr
    have all := hx.trans (dropped.trans (hxs dropped.complete))
    rwa [commas_singleton, ← List.append_nil x]
  | cons y ys =>
    have kept := op hx.complete hc (by decide)
    rw [commas_cons_cons]
    exact hx.trans (kept.trans (hxs kept.complete))

end Covered

end

end Quill
