import Quill.Proofs.Parts
import Quill.Proofs.Yield

/-!
# The marks of a tree

A tree tells how its text is to be read: the pieces of its yield come one after another, between
them some tokens are left out, and where a node begins the token at hand is the one that the node's
position tells. These are the marks of the tree (`Node.marks`), and `Along` says that a list of
tokens is read by them.

The marks of an expression begin behind the power signs that are left out, so an expression begins
at the first token of its yield; all other nodes begin at the first token that their rule reads.
The pieces among the marks are the yield (`Node.pieces_marks`). The marks of a part of a tree are
some of those of the tree, one after another (`Node.Within.exists_marked`), so every part begins at
a token of the text that is read by them (`Node.Within.exists_beginsAt`).
-/

namespace Quill

/-! ## Marks -/

/-- What is met where a text is read along a tree. -/
inductive Mark where
  /-- The next token is a piece of the yield. -/
  | piece (p : Piece)
  /-- A node with this position begins: the token that comes next has it, and is of one of the
  kinds. -/
  | start (kinds : List Kind) (pos : Int)
  /-- Tokens of a kind are left out, as many as there are or fewer. -/
  | skips (kind : Kind)
  /-- One token of a kind is left out. -/
  | drop (kind : Kind)
  /-- Power signs are left out, as many as there are. -/
  | powers

namespace Mark

/-- The piece of the yield, if it is one. -/
def piece? : Mark → Option Piece
  | piece p => some p
  | _ => none

/-- By the mark one is led from the one list of tokens on to the other one. -/
def Leads : Mark → List Token → List Token → Prop
  | piece p, ts, us => ∃ t, ts = t :: us ∧ p.Is t
  | start kinds pos, ts, us => us = ts ∧ ∃ t, ts.head? = some t ∧ t.kind ∈ kinds ∧ t.pos = pos
  | skips kind, ts, us => ∃ skipped, ts = skipped ++ us ∧ ∀ t ∈ skipped, t.kind = kind
  | drop kind, ts, us => ∃ t, ts = t :: us ∧ t.kind = kind
  | powers, ts, us => ∃ skipped, ts = skipped ++ us ∧ (∀ t ∈ skipped, t.kind = .op .pow) ∧
      ∀ t ∈ us.head?, t.kind ≠ .op .pow

end Mark

/-- By the marks one is led from the one list of tokens on to the other one. -/
def Along : List Mark → List Token → List Token → Prop
  | [], ts, us => us = ts
  | m :: ms, ts, us => ∃ mid, m.Leads ts mid ∧ Along ms mid us

/-- The lists with commas between them. -/
def separated (lists : List (List Mark)) : List Mark :=
  [Mark.piece Operator.comma.piece].intercalate lists

/-- A single list of marks has no comma. -/
theorem separated_singleton (x : List Mark) : separated [x] = x := by
  simp [separated, List.intercalate]

/-- Between two lists of marks stands a comma. -/
theorem separated_cons_cons (x y : List Mark) (xs : List (List Mark)) :
    separated (x :: y :: xs) = x ++ .piece Operator.comma.piece :: separated (y :: xs) := by
  simp [separated, List.intercalate]

mutual

/-- The marks of an expression. It begins behind the power signs that are left out, and where it has
no token at all, at the end of the input. -/
def Expr.marks : Expr → List Mark
  | .leaf k v pos =>
    .powers :: .start [(Expr.leaf k v pos).first] pos ::
      k.kind?.toList.map fun kind => .piece (.word ⟨kind, v⟩)
  | .call c pos => .powers :: .start [(Expr.call c pos).first] pos :: c.marks
  | .group e pos =>
    .powers :: .start [(Expr.group e pos).first] pos ::
      .piece Operator.lparen.piece :: e.marks ++ [.piece Operator.rparen.piece]
  | .binary op l r pos =>
    .powers :: .start [(Expr.binary op l r pos).first] pos ::
      (l.marks ++ .piece (.token op) :: r.marks)
  | .unary op e pos =>
    .powers :: .start [(Expr.unary op e pos).first] pos ::
      .piece (.token op) :: e.marks

/-- The marks of a call, which begins at its name. -/
def Call.marks : Call → List Mark
  | ⟨name, args, pos⟩ => .start [.ident] pos :: .piece (.token name) :: args.marks

/-- The marks of arguments, which begin at their parenthesis. -/
def Args.marks : Args → List Mark
  | ⟨items, pos⟩ =>
    .start [.op .lparen] pos :: .piece Operator.lparen.piece ::
      (separated (markItems items) ++ [.skips (.op .comma)]) ++ [.piece Operator.rparen.piece]

/-- The marks of each of the expressions. -/
def markItems : List Expr → List (List Mark)
  | [] => []
  | e :: es => e.marks :: markItems es

end

/-- The marks of names with commas between them. -/
def markNames (names : List Token) : List Mark :=
  separated (names.map fun n => [.piece (.token n)]) ++ [.skips (.op .comma)]

/-- The marks of a parameter list, which begins at its parenthesis. -/
def Params.marks (p : Params) : List Mark :=
  .start [.op .lparen] p.pos :: .piece Operator.lparen.piece :: markNames p.names ++
    [.piece Operator.rparen.piece]

mutual

/-- The marks of a statement. An expression for its effect begins at its first token, be it a power
sign that is left out. -/
def Statement.marks : Statement → List Mark
  | .scope b => b.marks
  | .expr e pos => .start [.op .pow, e.first] pos :: e.marks ++ [.skips (.op .lineEnd)]
  | .assign t e pos =>
    .start [.ident] pos :: .piece (.token t) :: .piece Operator.assign.piece :: e.marks ++
      [.skips (.op .lineEnd)]
  | .ret none pos =>
    [.start [.keyword .return_] pos, .piece Keyword.return_.piece, .skips (.op .lineEnd)]
  | .ret (some e) pos =>
    .start [.keyword .return_] pos :: .piece Keyword.return_.piece :: e.marks ++
      [.skips (.op .lineEnd)]
  | .branch b => b.marks
  | .function f pos => .start [.keyword .fn] pos :: f.marks
  | .empty pos => [.start [.op .lineEnd] pos, .drop (.op .lineEnd)]

/-- The marks of a scope, which begins at its brace. -/
def Scope.marks : Scope → List Mark
  | ⟨ss, pos⟩ =>
    .start [.op .lbrace] pos :: .piece Operator.lbrace.piece ::
      (.skips (.op .lineEnd) :: markStatements ss) ++ [.piece Operator.rbrace.piece]

/-- The marks of statements one after another. -/
def markStatements : List Statement → List Mark
  | [] => []
  | s :: ss => s.marks ++ .skips (.op .lineEnd) :: markStatements ss

/-- The marks of a clause, which begins at its keyword. -/
def Clause.marks (keyword : Keyword) : Clause → List Mark
  | ⟨c, s, pos⟩ =>
    .start [.keyword keyword] pos :: .piece keyword.piece :: (c.marks ++ s.marks)

/-- The marks of the further clauses of a branch. -/
def markClauses : List Clause → List Mark
  | [] => []
  | c :: cs => c.marks .elif ++ .skips (.op .lineEnd) :: markClauses cs

/-- The marks of a branch, which begins where its first clause does. -/
def Branch.marks : Branch → List Mark
  | ⟨c, cs, s, pos⟩ =>
    .start [.keyword .if_] pos :: (c.marks .if_ ++ .skips (.op .lineEnd) ::
      (markClauses cs ++ markOtherwise s))

/-- The marks of the end of a branch. -/
def markOtherwise : Option Statement → List Mark
  | none => []
  | some s => .piece Keyword.else_.piece :: s.marks

/-- The marks of a function, which begins at its keyword. -/
def Function.marks : Function → List Mark
  | ⟨name, params, body, pos⟩ =>
    .start [.keyword .fn] pos :: .piece Keyword.fn.piece :: .piece (.token name) ::
      (params.marks ++ body.marks)

end

/-- The marks of functions one after another. -/
def markFunctions : List Function → List Mark
  | [] => []
  | f :: fs => f.marks ++ .skips (.op .lineEnd) :: markFunctions fs

/-- The marks of a program, which begins where its first function does. -/
def Program.marks (p : Program) : List Mark :=
  .skips (.op .lineEnd) :: .start [.keyword .fn] p.pos :: markFunctions p.functions

/-- The marks of a tree. -/
def Node.marks : Node → List Mark
  | .expr e => e.marks
  | .call c => c.marks
  | .args a => a.marks
  | .params p => p.marks
  | .statement s => s.marks
  | .clause c => c.marks .if_
  | .function f => f.marks
  | .program p => p.marks

/-! ## Reading along marks -/

/-- One is led on by marks after one another. -/
theorem along_append {ms ns : List Mark} {ts us : List Token} :
    Along (ms ++ ns) ts us ↔ ∃ mid, Along ms ts mid ∧ Along ns mid us := by
  induction ms generalizing ts with
  | nil =>
    constructor
    · exact fun h => ⟨ts, rfl, h⟩
    · rintro ⟨mid, rfl, h⟩
      exact h
  | cons m ms ih =>
    constructor
    · rintro ⟨mid, leads, rest⟩
      obtain ⟨mid', first, second⟩ := ih.1 rest
      exact ⟨mid', ⟨mid, leads, first⟩, second⟩
    · rintro ⟨mid', ⟨mid, leads, first⟩, second⟩
      exact ⟨mid, leads, ih.2 ⟨mid', first, second⟩⟩

/-- No mark leads back. -/
theorem Mark.Leads.suffix {m : Mark} {ts us : List Token} (h : m.Leads ts us) : us <:+ ts := by
  cases m with
  | piece | drop =>
    obtain ⟨t, rfl, -⟩ := h
    exact List.suffix_cons ..
  | start =>
    obtain ⟨rfl, -⟩ := h
    exact List.suffix_rfl
  | skips | powers =>
    obtain ⟨skipped, rfl, -⟩ := h
    exact List.suffix_append ..

/-- What is left along marks is the end of the tokens. -/
theorem Along.suffix {ms : List Mark} {ts us : List Token} (h : Along ms ts us) : us <:+ ts := by
  induction ms generalizing ts with
  | nil =>
    cases h
    exact List.suffix_rfl
  | cons m ms ih =>
    obtain ⟨mid, leads, rest⟩ := h
    exact (ih rest).trans leads.suffix

/-- Some of the tokens are read along some of the marks that come one after another. -/
theorem Along.exists_of_infix {ms ns : List Mark} {ts us : List Token} (h : Along ms ts us)
    (hn : ns <:+: ms) : ∃ ts' us', ts' <:+ ts ∧ Along ns ts' us' := by
  obtain ⟨before, after, rfl⟩ := hn
  obtain ⟨us', along, -⟩ := along_append.1 h
  obtain ⟨ts', before, inner⟩ := along_append.1 along
  exact ⟨ts', us', before.suffix, inner⟩

/-- Where a node begins the token that it tells comes next. -/
theorem Along.exists_start {ms : List Mark} {ts us : List Token} {kinds : List Kind} {pos : Int}
    (h : Along (.start kinds pos :: ms) ts us) :
    ∃ t rest, ts = t :: rest ∧ t.kind ∈ kinds ∧ t.pos = pos ∧ Along ms ts us := by
  obtain ⟨_, ⟨rfl, t, first, kind, pos⟩, rest⟩ := h
  obtain ⟨rest', rfl⟩ := List.head?_eq_some_iff.1 first
  exact ⟨t, rest', rfl, kind, pos, rest⟩

section
variable {ms : List Mark} {t : Token} {ts us : List Token}

/-- Where no power sign comes next, none is left out. -/
theorem Along.of_powers (h : Along (.powers :: ms) (t :: ts) us) (ht : t.kind ≠ .op .pow) :
    Along ms (t :: ts) us := by
  obtain ⟨mid, ⟨skipped, split, all, -⟩, rest⟩ := h
  cases skipped with
  | nil =>
    cases split
    exact rest
  | cons u skipped =>
    cases split
    exact absurd (all t List.mem_cons_self) ht

/-- A start takes no token. -/
theorem Along.of_start {kinds : List Kind} {pos : Int} (h : Along (.start kinds pos :: ms) ts us) :
    Along ms ts us := by
  obtain ⟨_, ⟨rfl, -⟩, rest⟩ := h
  exact rest

end

/-- The token along a piece is that piece. -/
theorem Along.is_of_piece {p : Piece} {ms : List Mark} {t : Token} {ts us : List Token}
    (h : Along (.piece p :: ms) (t :: ts) us) : p.Is t := by
  obtain ⟨_, ⟨_, ⟨⟩, is⟩, -⟩ := h
  exact is

/-! ## Marks and the yield -/

/-- The pieces among the marks. -/
def pieces (ms : List Mark) : List Piece := ms.filterMap Mark.piece?

section
variable (p : Piece) (kinds : List Kind) (kind : Kind) (pos : Int) (ms ns : List Mark)

@[simp] theorem pieces_nil : pieces [] = [] := rfl

@[simp] theorem pieces_piece : pieces (.piece p :: ms) = p :: pieces ms := rfl

@[simp] theorem pieces_start : pieces (.start kinds pos :: ms) = pieces ms := rfl

@[simp] theorem pieces_skips : pieces (.skips kind :: ms) = pieces ms := rfl

@[simp] theorem pieces_drop : pieces (.drop kind :: ms) = pieces ms := rfl

@[simp] theorem pieces_powers : pieces (.powers :: ms) = pieces ms := rfl

@[simp] theorem pieces_append : pieces (ms ++ ns) = pieces ms ++ pieces ns :=
  List.filterMap_append

end

/-- The pieces of separated lists are the pieces of each with commas between them. -/
theorem pieces_separated (lists : List (List Mark)) :
    pieces (separated lists) = commas (lists.map pieces) := by
  induction lists with
  | nil => rfl
  | cons x xs ih =>
    cases xs with
    | nil => rw [separated_singleton, List.map_singleton, commas_singleton]
    | cons y ys =>
      rw [separated_cons_cons, pieces_append, pieces_piece, ih]
      exact (commas_cons_cons ..).symm

mutual

/-- The pieces among the marks of an expression are its yield. -/
theorem Expr.pieces_marks : ∀ e : Expr, pieces e.marks = e.yield
  | .leaf k v pos => by cases k <;> rfl
  | .call c pos => c.pieces_marks
  | .group e pos => by simp [Expr.marks, Expr.yield, e.pieces_marks]
  | .binary op l r pos => by simp [Expr.marks, Expr.yield, l.pieces_marks, r.pieces_marks]
  | .unary op e pos => by simp [Expr.marks, Expr.yield, e.pieces_marks]

/-- The pieces among the marks of a call are its yield. -/
theorem Call.pieces_marks : ∀ c : Call, pieces c.marks = c.yield
  | ⟨name, args, pos⟩ => by simp [Call.marks, Call.yield, args.pieces_marks]

/-- The pieces among the marks of arguments are their yield. -/
theorem Args.pieces_marks : ∀ a : Args, pieces a.marks = a.yield
  | ⟨items, pos⟩ => by
    simp [Args.marks, Args.yield, pieces_separated, pieces_markItems items]

/-- The pieces among the marks of each argument are its yield. -/
theorem pieces_markItems : ∀ es : List Expr, (markItems es).map pieces = yieldItems es
  | [] => rfl
  | e :: es => by
    rw [markItems, List.map_cons, e.pieces_marks, pieces_markItems es, yieldItems]

end

/-- The pieces among the marks of names are their yield. -/
theorem pieces_markNames (names : List Token) : pieces (markNames names) = yieldNames names := by
  rw [markNames, pieces_append, pieces_separated, List.map_map]
  exact List.append_nil _

/-- The pieces among the marks of parameters are their yield. -/
theorem Params.pieces_marks (p : Params) : pieces p.marks = p.yield := by
  simp [Params.marks, Params.yield, pieces_markNames]

mutual

/-- The pieces among the marks of a statement are its yield. -/
theorem Statement.pieces_marks : ∀ s : Statement, pieces s.marks = s.yield
  | .scope b => b.pieces_marks
  | .expr e pos => by simp [Statement.marks, Statement.yield, e.pieces_marks]
  | .assign t e pos => by simp [Statement.marks, Statement.yield, e.pieces_marks]
  | .ret none pos => rfl
  | .ret (some e) pos => by simp [Statement.marks, Statement.yield, e.pieces_marks]
  | .branch b => b.pieces_marks
  | .function f pos => f.pieces_marks
  | .empty pos => rfl

/-- The pieces among the marks of a scope are its yield. -/
theorem Scope.pieces_marks : ∀ b : Scope, pieces b.marks = b.yield
  | ⟨ss, pos⟩ => by simp [Scope.marks, Scope.yield, pieces_markStatements ss]

/-- The pieces among the marks of statements are their yield. -/
theorem pieces_markStatements : ∀ ss : List Statement,
    pieces (markStatements ss) = yieldStatements ss
  | [] => rfl
  | s :: ss => by
    simp [markStatements, yieldStatements, s.pieces_marks, pieces_markStatements ss]

/-- The pieces among the marks of a clause are its keyword and its yield. -/
theorem Clause.pieces_marks (keyword : Keyword) : ∀ c : Clause,
    pieces (c.marks keyword) = keyword.piece :: c.yield
  | ⟨c, s, pos⟩ => by simp [Clause.marks, Clause.yield, c.pieces_marks, s.pieces_marks]

/-- The pieces among the marks of further clauses are their yield. -/
theorem pieces_markClauses : ∀ cs : List Clause, pieces (markClauses cs) = yieldClauses cs
  | [] => rfl
  | c :: cs => by
    simp [markClauses, yieldClauses, c.pieces_marks .elif, pieces_markClauses cs]

/-- The pieces among the marks of a branch are its yield. -/
theorem Branch.pieces_marks : ∀ b : Branch, pieces b.marks = b.yield
  | ⟨c, cs, s, pos⟩ => by
    simp [Branch.marks, Branch.yield, c.pieces_marks .if_, pieces_markClauses cs,
      pieces_markOtherwise s]

/-- The pieces among the marks of the last branch are its yield. -/
theorem pieces_markOtherwise : ∀ s : Option Statement,
    pieces (markOtherwise s) = yieldOtherwise s
  | none => rfl
  | some s => by simp [markOtherwise, yieldOtherwise, s.pieces_marks]

/-- The pieces among the marks of a function are its yield. -/
theorem Function.pieces_marks : ∀ f : Function, pieces f.marks = f.yield
  | ⟨name, params, body, pos⟩ => by
    simp [Function.marks, Function.yield, params.pieces_marks, body.pieces_marks]

end

/-- The pieces among the marks of functions are their yield. -/
theorem pieces_markFunctions (fs : List Function) :
    pieces (markFunctions fs) = yieldFunctions fs := by
  induction fs with
  | nil => rfl
  | cons f fs ih => simp [markFunctions, yieldFunctions, f.pieces_marks, ih]

/-- The pieces among the marks of a tree are its yield. The keyword of a clause goes with the branch
that the clause is part of, so it is not in the yield of a clause that stands alone. -/
theorem Node.pieces_marks {n : Node} (h : ∀ c, n ≠ .clause c) : pieces n.marks = n.yield := by
  cases n with
  | expr e => exact e.pieces_marks
  | call c => exact c.pieces_marks
  | args a => exact a.pieces_marks
  | params p => exact p.pieces_marks
  | statement s => exact s.pieces_marks
  | clause c => exact absurd rfl (h c)
  | function f => exact f.pieces_marks
  | program p => exact pieces_markFunctions p.functions

/-! ## Where each node begins -/

/-- Where a statement begins. -/
def Statement.pos : Statement → Int
  | .scope b => b.pos
  | .expr _ pos | .assign _ _ pos | .ret _ pos | .function _ pos | .empty pos => pos
  | .branch b => b.pos

/-- The kinds of token that a statement can begin with. -/
def Statement.opens : Statement → List Kind
  | .scope _ => [.op .lbrace]
  | .expr e _ => [.op .pow, e.first]
  | .assign .. => [.ident]
  | .ret .. => [.keyword .return_]
  | .branch _ => [.keyword .if_]
  | .function .. => [.keyword .fn]
  | .empty _ => [.op .lineEnd]

namespace Node

/-- Where a node begins. -/
def pos : Node → Int
  | expr e => e.pos
  | call c => c.pos
  | args a => a.pos
  | params p => p.pos
  | statement s => s.pos
  | clause c => c.pos
  | function f => f.pos
  | program p => p.pos

/-- The kinds of token that a node can begin with. -/
def opens : Node → List Kind
  | expr e => [e.first]
  | call _ => [.ident]
  | args _ | params _ => [.op .lparen]
  | statement s => s.opens
  | clause _ => [.keyword .if_, .keyword .elif]
  | function _ | program _ => [.keyword .fn]

/-- Whether the node begins at the token. An expression begins at the first token of its yield. -/
structure BeginsAt (n : Node) (t : Token) : Prop where
  kind : t.kind ∈ n.opens
  pos : t.pos = n.pos
  yield {e : Expr} : n = .expr e → ∀ p ∈ e.yield.head?, p.Is t

end Node

/-- Any expression begins behind the power signs that are left out. -/
theorem Expr.exists_marks (e : Expr) :
    ∃ ms, e.marks = .powers :: .start [e.first] e.pos :: ms := by
  cases e <;> exact ⟨_, rfl⟩

/-- An expression without pieces is marked by its start alone. -/
theorem Expr.marks_of_yield {e : Expr} (h : e.yield = []) :
    e.marks = [.powers, .start [e.first] e.pos] := by
  cases e with
  | leaf k v pos => cases k <;> first | rfl | cases h
  | call c =>
    obtain ⟨name, args, pos⟩ := c
    cases h
  | group | unary => cases h
  | binary => simp [Expr.yield] at h

/-- Where no power sign comes next, an expression is read from the first token of its yield. -/
theorem Expr.is_of_along : ∀ (e : Expr) {ms : List Mark} {t : Token} {ts us : List Token},
    t.kind ≠ .op .pow → Along (e.marks ++ ms) (t :: ts) us → ∀ p ∈ e.yield.head?, p.Is t
  | .leaf k v _, _, _, _, _, ht, h => by
    cases k with
    | number | string | symbol | bool =>
      rintro p ⟨⟩
      exact (h.of_powers ht).of_start.is_of_piece
    | call | expr | none => rintro p ⟨⟩
  | .call ⟨_, _, _⟩ _, _, _, _, _, ht, h => by
    rintro p ⟨⟩
    exact (h.of_powers ht).of_start.of_start.is_of_piece
  | .group .., _, _, _, _, ht, h | .unary .., _, _, _, _, ht, h => by
    rintro p ⟨⟩
    exact (h.of_powers ht).of_start.is_of_piece
  | .binary op l r pos, ms, t, ts, us, ht, h => by
    have inner : Along (l.marks ++ (.piece (.token op) :: r.marks ++ ms)) (t :: ts) us := by
      rw [← List.append_assoc]
      exact (h.of_powers ht).of_start
    intro p hp
    cases hl : l.yield with
    | nil =>
      -- A missing operand has no token, so the operator would come next.
      rw [Expr.marks_of_yield hl] at inner
      obtain rfl : .token op = p := by simpa [Expr.yield, hl] using hp
      exact (inner.of_powers ht).of_start.is_of_piece
    | cons q qs =>
      refine l.is_of_along ht inner p ?_
      simpa [Expr.yield, hl] using hp

/-- Behind the power signs that are left out, the first token is the one that the expression begins
at, and the first one of its yield. -/
theorem Expr.exists_first_of_along {e : Expr} {ts us : List Token} (h : Along e.marks ts us) :
    ∃ skipped t rest, ts = skipped ++ t :: rest ∧ (∀ u ∈ skipped, u.kind = .op .pow) ∧
      t.kind = e.first ∧ t.pos = e.pos ∧ ∀ p ∈ e.yield.head?, p.Is t := by
  obtain ⟨ms, marks⟩ := e.exists_marks
  have read := h
  rw [marks] at read
  obtain ⟨_, ⟨skipped, rfl, all, ne⟩, begins⟩ := read
  obtain ⟨t, rest, rfl, kind, pos, -⟩ := begins.exists_start
  refine ⟨skipped, t, rest, rfl, all, List.mem_singleton.1 kind, pos, ?_⟩
  have along : Along (e.marks ++ []) (t :: rest) us := by
    rw [List.append_nil, marks]
    exact ⟨_, ⟨[], rfl, List.forall_mem_nil _, ne⟩, begins⟩
  exact e.is_of_along (ne t rfl) along

namespace Node

/-- Whether the marks are those of the node. A clause that is not the first one of its branch has
another keyword. -/
inductive Marked : Node → List Mark → Prop
  | whole (n : Node) : n.Marked n.marks
  | elif (c : Clause) : (clause c).Marked (c.marks .elif)

/-- Where a node begins, its marks tell. -/
theorem exists_start_of_marks {n : Node} (hn : ∀ e, n ≠ expr e) :
    ∃ before kinds ms, n.marks = before ++ .start kinds n.pos :: ms ∧
      ∀ kind ∈ kinds, kind ∈ n.opens := by
  cases n with
  | expr e => exact absurd rfl (hn e)
  | call c =>
    obtain ⟨name, args, pos⟩ := c
    exact ⟨[], _, _, rfl, fun _ h => h⟩
  | args a =>
    obtain ⟨items, pos⟩ := a
    exact ⟨[], _, _, rfl, fun _ h => h⟩
  | params p => exact ⟨[], _, _, rfl, fun _ h => h⟩
  | statement s =>
    cases s with
    | scope b =>
      obtain ⟨statements, pos⟩ := b
      exact ⟨[], _, _, rfl, fun _ h => h⟩
    | branch b =>
      obtain ⟨first, others, otherwise, pos⟩ := b
      exact ⟨[], _, _, rfl, fun _ h => h⟩
    | ret e _ => cases e <;> exact ⟨[], _, _, rfl, fun _ h => h⟩
    | _ => exact ⟨[], _, _, rfl, fun _ h => h⟩
  | clause c =>
    obtain ⟨condition, body, pos⟩ := c
    exact ⟨[], [.keyword .if_], _, rfl, by simp [opens]⟩
  | function f =>
    obtain ⟨name, params, body, pos⟩ := f
    exact ⟨[], _, _, rfl, fun _ h => h⟩
  | program p => exact ⟨[.skips (.op .lineEnd)], _, _, rfl, fun _ h => h⟩

/-- Along the marks of a node there is a token at which it begins. -/
theorem Marked.exists_beginsAt {n : Node} {ms : List Mark} {ts us : List Token} (h : n.Marked ms)
    (along : Along ms ts us) : ∃ t ∈ ts, n.BeginsAt t := by
  cases h with
  | elif c =>
    obtain ⟨condition, body, _⟩ := c
    obtain ⟨t, rest, rfl, kind, pos, -⟩ := along.exists_start
    refine ⟨t, List.mem_cons_self, ?_, pos, nofun⟩
    rw [List.mem_singleton.1 kind]
    exact List.mem_cons_of_mem _ List.mem_cons_self
  | whole =>
    by_cases expression : ∃ e, n = expr e
    · obtain ⟨e, rfl⟩ := expression
      obtain ⟨skipped, t, rest, rfl, -, kind, pos, yield⟩ := Expr.exists_first_of_along along
      refine ⟨t, by simp, List.mem_singleton.2 kind, pos, ?_⟩
      rintro _ ⟨⟩
      exact yield
    · obtain ⟨before, kinds, ms, marks, opens⟩ := exists_start_of_marks (not_exists.1 expression)
      rw [marks] at along
      obtain ⟨mid, first, begins⟩ := along_append.1 along
      obtain ⟨t, rest, rfl, kind, pos, -⟩ := begins.exists_start
      refine ⟨t, first.suffix.subset List.mem_cons_self, opens _ kind, pos, ?_⟩
      rintro e rfl
      exact absurd ⟨e, rfl⟩ expression

end Node

/-! ## The marks of the parts -/

/-- The marks of an item are some of those of the list. -/
theorem infix_separated {x : List Mark} {lists : List (List Mark)} (h : x ∈ lists) :
    x <:+: separated lists := by
  induction lists with
  | nil => cases h
  | cons y ys ih =>
    cases ys with
    | nil =>
      obtain rfl := List.mem_singleton.1 h
      simp [separated_singleton]
    | cons z zs =>
      rw [separated_cons_cons]
      rcases List.mem_cons.1 h with rfl | h
      · exact List.infix_append_left
      · exact List.infix_append_of_infix_right (List.infix_cons (ih h))

/-- The marks of an argument are among those of the list. -/
theorem marks_mem_markItems {e : Expr} {es : List Expr} (h : e ∈ es) : e.marks ∈ markItems es := by
  induction es with
  | nil => cases h
  | cons e' es ih =>
    rw [markItems]
    rcases List.mem_cons.1 h with rfl | h
    · exact .head _
    · exact .tail _ (ih h)

/-- The marks of an item are some of those of the list, where a mark stands after each item. -/
theorem infix_of_cons {α : Type} {f : α → List Mark} {g : List α → List Mark} {after : Mark}
    (cons : ∀ a as, g (a :: as) = f a ++ after :: g as) {a : α} {as : List α} (h : a ∈ as) :
    f a <:+: g as := by
  induction as with
  | nil => cases h
  | cons b as ih =>
    rw [cons]
    rcases List.mem_cons.1 h with rfl | h
    · exact List.infix_append_left
    · exact List.infix_append_of_infix_right (List.infix_cons (ih h))

/-- The marks of a statement stand within those of the list. -/
theorem infix_markStatements {s : Statement} {ss : List Statement} (h : s ∈ ss) :
    s.marks <:+: markStatements ss :=
  infix_of_cons (fun _ _ => by rw [markStatements]) h

/-- The marks of a further clause stand within those of the list. -/
theorem infix_markClauses {c : Clause} {cs : List Clause} (h : c ∈ cs) :
    c.marks .elif <:+: markClauses cs :=
  infix_of_cons (fun _ _ => by rw [markClauses]) h

/-- The marks of a function stand within those of the list. -/
theorem infix_markFunctions {f : Function} {fs : List Function} (h : f ∈ fs) :
    f.marks <:+: markFunctions fs :=
  infix_of_cons (fun _ _ => by rw [markFunctions]) h

namespace Node
variable {n m : Node} {ms : List Mark}

/-- The marks of a part of an expression stand within those of the expression. -/
theorem infix_marks_of_expr {e : Expr} (h : m ∈ (expr e).children) : m.marks <:+: e.marks := by
  cases e with
  | leaf => cases h
  | binary op l r pos =>
    simp only [children, List.mem_cons, List.not_mem_nil, or_false] at h
    refine List.infix_cons (List.infix_cons ?_)
    rcases h with rfl | rfl
    · exact List.infix_append_left
    · exact List.infix_append_of_infix_right (List.infix_cons List.infix_rfl)
  | call =>
    obtain rfl := List.mem_singleton.1 h
    exact List.infix_cons (List.infix_cons List.infix_rfl)
  | group =>
    obtain rfl := List.mem_singleton.1 h
    exact List.infix_cons (List.infix_cons (List.infix_cons List.infix_append_left))
  | unary =>
    obtain rfl := List.mem_singleton.1 h
    exact List.infix_cons (List.infix_cons (List.infix_cons List.infix_rfl))

/-- The marks of a part of a clause stand within those of the clause. -/
theorem infix_marks_of_clause {c : Clause} {keyword : Keyword} (h : m ∈ (clause c).children) :
    m.marks <:+: c.marks keyword := by
  obtain ⟨condition, body, pos⟩ := c
  simp only [children, List.mem_cons, List.not_mem_nil, or_false] at h
  refine List.infix_cons (List.infix_cons ?_)
  rcases h with rfl | rfl
  · exact List.infix_append_left
  · exact List.infix_append_right

/-- The marks of a part of a branch stand within those of the branch, each clause with its own
keyword. -/
theorem exists_marked_of_branch {b : Branch} (h : m ∈ (statement (.branch b)).children) :
    ∃ ns, m.Marked ns ∧ ns <:+: b.marks := by
  obtain ⟨first, others, otherwise, pos⟩ := b
  simp only [children, List.mem_cons, List.mem_append, List.mem_map] at h
  rcases h with rfl | ⟨c, hc, rfl⟩ | ⟨s, hs, rfl⟩
  · exact ⟨_, .whole _, List.infix_cons List.infix_append_left⟩
  · have clauses : c.marks .elif <:+: markClauses others ++ markOtherwise otherwise :=
      List.infix_append_of_infix_left (infix_markClauses hc)
    exact ⟨_, .elif c, List.infix_cons (List.infix_append_of_infix_right (List.infix_cons clauses))⟩
  · obtain rfl : otherwise = some s := by simpa using hs
    have otherwise : s.marks <:+: markOtherwise (some s) := List.infix_cons List.infix_rfl
    exact ⟨_, .whole _, List.infix_cons (List.infix_append_of_infix_right
      (List.infix_cons (List.infix_append_of_infix_right otherwise)))⟩

/-- The marks of a part of a statement stand within those of the statement, branches apart. -/
theorem infix_marks_of_statement {s : Statement} (hb : ∀ b, s ≠ .branch b)
    (h : m ∈ (statement s).children) : m.marks <:+: s.marks := by
  cases s with
  | scope b =>
    obtain ⟨statements, pos⟩ := b
    obtain ⟨s, hs, rfl⟩ := List.mem_map.1 h
    have inner : s.marks <:+: .skips (.op .lineEnd) :: markStatements statements :=
      List.infix_cons (infix_markStatements hs)
    exact List.infix_append_of_infix_left (List.infix_cons (List.infix_cons inner))
  | expr =>
    obtain rfl := List.mem_singleton.1 h
    exact List.infix_cons List.infix_append_left
  | assign =>
    obtain rfl := List.mem_singleton.1 h
    exact List.infix_cons (List.infix_cons (List.infix_cons List.infix_append_left))
  | ret e =>
    cases e with
    | none => cases h
    | some e =>
      obtain rfl := List.mem_singleton.1 h
      exact List.infix_cons (List.infix_cons List.infix_append_left)
  | branch b => exact absurd rfl (hb b)
  | function =>
    obtain rfl := List.mem_singleton.1 h
    exact List.infix_cons List.infix_rfl
  | empty => cases h

/-- The marks of a part stand within those of the node, branches apart. -/
theorem infix_marks_of_child (hb : ∀ b, n ≠ statement (.branch b)) (h : m ∈ n.children) :
    m.marks <:+: n.marks := by
  cases n with
  | expr e => exact infix_marks_of_expr h
  | call c =>
    obtain ⟨name, args, pos⟩ := c
    obtain rfl := List.mem_singleton.1 h
    exact List.infix_cons (List.infix_cons List.infix_rfl)
  | args a =>
    obtain ⟨items, pos⟩ := a
    obtain ⟨e, he, rfl⟩ := List.mem_map.1 h
    have item := infix_separated (marks_mem_markItems he)
    exact List.infix_append_of_infix_left (List.infix_cons (List.infix_cons
      (List.infix_append_of_infix_left item)))
  | params p => cases h
  | statement s => exact infix_marks_of_statement (fun b hs => hb b (by rw [hs])) h
  | clause c => exact infix_marks_of_clause h
  | function f =>
    obtain ⟨name, params, body, pos⟩ := f
    simp only [children, List.mem_cons, List.not_mem_nil, or_false] at h
    refine List.infix_cons (List.infix_cons (List.infix_cons ?_))
    rcases h with rfl | rfl
    · exact List.infix_append_left
    · exact List.infix_append_right
  | program p =>
    obtain ⟨functions, pos⟩ := p
    obtain ⟨f, hf, rfl⟩ := List.mem_map.1 h
    exact List.infix_cons (List.infix_cons (infix_markFunctions hf))

/-- The marks of a child are some of those of its parent, one after another. -/
theorem Marked.child (h : n.Marked ms) (hm : m ∈ n.children) : ∃ ns, m.Marked ns ∧ ns <:+: ms := by
  cases h with
  | elif c => exact ⟨_, .whole m, infix_marks_of_clause hm⟩
  | whole =>
    by_cases branch : ∃ b, n = statement (.branch b)
    · obtain ⟨b, rfl⟩ := branch
      exact exists_marked_of_branch hm
    · exact ⟨_, .whole m, infix_marks_of_child (not_exists.1 branch) hm⟩

/-- The marks of a part of a tree are some of those of the tree, one after another. -/
theorem Within.exists_marked (h : m.Within n) (hn : n.Marked ms) :
    ∃ ns, m.Marked ns ∧ ns <:+: ms := by
  induction h generalizing ms with
  | refl => exact ⟨ms, hn, List.infix_rfl⟩
  | child hk _ ih =>
    obtain ⟨ns, marked, inner⟩ := hn.child hk
    obtain ⟨ns', marked', inner'⟩ := ih marked
    exact ⟨ns', marked', inner'.trans inner⟩

/-- Where a text is read along the marks of a tree, every part of the tree begins at a token. -/
theorem Within.exists_beginsAt {ts us : List Token} (h : m.Within n) (along : Along n.marks ts us) :
    ∃ t ∈ ts, m.BeginsAt t := by
  obtain ⟨ns, marked, inner⟩ := h.exists_marked (.whole n)
  obtain ⟨ts', us', suffix, part⟩ := along.exists_of_infix inner
  obtain ⟨t, ht, begins⟩ := marked.exists_beginsAt part
  exact ⟨t, suffix.subset ht, begins⟩

end Node

end Quill
