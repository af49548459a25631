import Quill.Proofs.Holding
import Quill.Tree.Render

/-!
# Equal parses are written equally

Equality of trees passes over the spelling of operators and over the sign of a zero, and the text of
a tree shows them. On parsed trees this makes no difference: an operator has the one lexeme of its
kind and no number is negative (`Node.Canonical`), so values that are the same are equal
(`Kind.Takes.eq`).

The text of a node is made of its head, its value, the texts of its tokens and those of its children
(`Node.render_eq`), just the parts by which trees are compared. So the rest is an induction on
trees. The result is `parse_render_eq`.
-/

namespace Quill

/-! ## The text of a node -/

/-- The text of a chain of conditions from the texts of its parts. -/
def branchText (first : String) (others : List String) (otherwise : String) : String :=
  "Branch(if_block=" ++ first ++ ", alt_blocks=" ++ preview others ++ ", else_block=" ++
    otherwise ++ ")"

/-- The text of a node from its head, its value and the texts of its tokens and of its children.
The last case is that of no node. -/
def NodeHead.text : NodeHead → Value → (tokens children : List String) → String
  | .expr (.leaf .none), _, _, _ => "Factor(none)"
  | .expr (.leaf k), v, _, _ => "Factor(" ++ k.name ++ ", " ++ v.quoted ++ ")"
  | .expr .call, _, _, [c] => "Factor(call, " ++ c ++ ")"
  | .expr .group, _, _, [e] => "Factor(expr, " ++ e ++ ")"
  | .expr .binary, _, [op], [l, r] =>
    "Binary(op=" ++ op ++ ", left=" ++ l ++ ", right=" ++ r ++ ")"
  | .expr .unary, _, [op], [e] => "Unary(op=" ++ op ++ ", right=" ++ e ++ ")"
  | .call, _, [name], [as] => "FnCall(name=" ++ name ++ ", args=" ++ as ++ ")"
  | .args, _, _, items => "ArgList(args=" ++ preview items ++ ")"
  | .params, _, names, _ => "ArgDeclList(names=" ++ preview names ++ ")"
  | .statement .scope, _, _, ss => "Scope(statements=" ++ preview ss ++ ")"
  | .statement .expr, _, _, [e] => "ExprStatement(expr=" ++ e ++ ")"
  | .statement .assign, _, [name], [e] => "Assign(left=" ++ name ++ ", right=" ++ e ++ ")"
  | .statement .ret, _, _, e => "Return(val=" ++ e.head?.getD "None" ++ ")"
  | .statement (.branch false), _, _, c :: cs => branchText c cs "None"
  | .statement (.branch true), _, _, c :: cs =>
    branchText c cs.dropLast (cs.getLast?.getD "None")
  | .statement .function, _, _, [f] => "FnDecl(function=" ++ f ++ ")"
  | .statement .empty, _, _, _ => "EmptyStatement()"
  | .clause, _, _, [e, s] => "CondBlock(cond=" ++ e ++ ", body=" ++ s ++ ")"
  | .function, _, [name], [ps, b] =>
    "Function(name=" ++ name ++ ", params=" ++ ps ++ ", body=" ++ b ++ ")"
  | .program, _, _, fs => "Program(functions=" ++ preview fs ++ ")"
  | _, _, _, _ => ""

/-- The last of the texts is that of what follows `else`. -/
theorem NodeHead.text_branch_true (c : String) (cs : List String) (s : String) :
    text (.statement (.branch true)) .absent [] (c :: (cs ++ [s])) = branchText c cs s := by
  show branchText c (cs ++ [s]).dropLast ((cs ++ [s]).getLast?.getD "None") = _
  rw [List.dropLast_concat, List.getLast?_concat, Option.getD_some]

namespace Node

/-- Lists that are written item by item have the texts of their items. -/
theorem map_render {α : Type} {f : α → Node} {g : List α → List String} (nil : g [] = [])
    (cons : ∀ a as, g (a :: as) = (f a).render :: g as) (as : List α) :
    (as.map f).map render = g as := by
  rw [List.map_map]
  exact (eq_map_of_cons nil cons as).symm

/-- Expressions are rendered one by one. -/
theorem map_render_exprs (es : List Expr) : (es.map expr).map render = renderExprs es :=
  map_render rfl (fun _ _ => rfl) es

/-- Statements are rendered one by one. -/
theorem map_render_statements (ss : List Statement) :
    (ss.map statement).map render = renderStatements ss :=
  map_render rfl (fun _ _ => rfl) ss

/-- Clauses are rendered one by one. -/
theorem map_render_clauses (cs : List Clause) : (cs.map clause).map render = renderClauses cs :=
  map_render rfl (fun _ _ => rfl) cs

/-- Functions are rendered one by one. -/
theorem map_render_functions (fs : List Function) :
    (fs.map function).map render = fs.map Function.render :=
  map_render rfl (fun _ _ => rfl) fs

/-- A branch is rendered from its parts, and from whether it has a last branch. -/
theorem render_branch (b : Branch) :
    b.render = NodeHead.text (.statement (.branch b.otherwise.isSome)) .absent []
      ((statement (.branch b)).children.map render) := by
  obtain ⟨first, others, otherwise, pos⟩ := b
  have text : Branch.render ⟨first, others, otherwise, pos⟩ =
      branchText first.render (renderClauses others) (renderOtherwise otherwise) := rfl
  rw [text, children, List.map_cons, List.map_append, map_render_clauses]
  cases otherwise with
  | none =>
    rw [Option.toList_none, List.map_nil, List.map_nil, List.append_nil]
    rfl
  | some s => exact (NodeHead.text_branch_true ..).symm

/-- The text of a node is made of what it has of its own and of the texts of its children. -/
theorem render_eq (n : Node) :
    n.render = n.head.text n.value (n.tokens.map Token.render) (n.children.map render) := by
  cases n with
  | expr e =>
    cases e with
    | leaf k => cases k <;> rfl
    | call | group | binary | unary => rfl
  | call c =>
    obtain ⟨name, as, pos⟩ := c
    rfl
  | args a =>
    obtain ⟨items, pos⟩ := a
    rw [children, map_render_exprs]
    rfl
  | params => rfl
  | statement s =>
    cases s with
    | scope b =>
      obtain ⟨statements, pos⟩ := b
      rw [children, map_render_statements]
      rfl
    | branch b => exact render_branch b
    | ret value => cases value <;> rfl
    | expr | assign | function | empty => rfl
  | clause c =>
    obtain ⟨e, s, pos⟩ := c
    rfl
  | function f =>
    obtain ⟨name, ps, b, pos⟩ := f
    rfl
  | program p =>
    rw [children, map_render_functions]
    rfl

end Node

/-! ## Values that are the same -/

/-- Values that go with one kind are equal if they are the same. A terminator has two spellings. -/
theorem Kind.Takes.eq {k : Kind} {v w : Value} (hv : k.Takes v) (hw : k.Takes w)
    (hk : k ≠ .op .lineEnd) (h : k.isOperator = false → v.same w = true) : v = w := by
  cases k with
  | op o =>
    have spelled : o ≠ .lineEnd := fun heq => hk (congrArg Kind.op heq)
    rw [hv spelled, hw spelled]
  | anyOp => exact hv.elim
  | number =>
    obtain ⟨m, rfl⟩ := hv
    obtain ⟨m', rfl⟩ := hw
    have same : m = m' ∧ (false = false ∨ m = .zero) := of_decide_eq_true (h rfl)
    rw [same.1]
  | bool =>
    obtain ⟨b, rfl⟩ := hv
    obtain ⟨b', rfl⟩ := hw
    rw [of_decide_eq_true (h rfl)]
  | keyword | string | ident | other | eof | custom =>
    obtain ⟨s, rfl⟩ := hv
    obtain ⟨s', rfl⟩ := hw
    rw [of_decide_eq_true (h rfl)]

/-- Beside operators a number goes with no kind but that of numerals. -/
theorem Kind.Takes.eq_number {k : Kind} {x : Binary64} (h : k.Takes (.number x))
    (hk : k.isOperator = false) : k = .number := by
  cases k with
  | op | anyOp => cases hk
  | number => rfl
  | keyword | string | ident | bool | other | eof | custom =>
    obtain ⟨_, hv⟩ := h
    cases hv

/-- Tokens that are the same are written equally, where values go with kinds. -/
theorem Token.Scanned.render_eq {s t : Token} (hs : s.Scanned) (ht : t.Scanned)
    (hk : s.kind ≠ .op .lineEnd) (h : s.same t = true) : s.render = t.render := by
  have single {u : Token} (hu : u.Scanned) : u.kind ≠ .anyOp := by
    intro any
    rw [Scanned, any] at hu
    exact hu
  obtain ⟨kind, value⟩ := like_of_same (single hs) (single ht) h
  have equal : s.value = t.value := Kind.Takes.eq hs (kind ▸ ht) hk value
  rw [Token.render, Token.render, kind, equal]

/-! ## Parsed trees -/

/-- A lexeme of the operator and the only one. Either sign is written as the operator between two
operands is. -/
def Operator.OnlyLexeme (o : Operator) (lexeme : List Char) : Prop :=
  ∀ other, (other, o.unsigned) ∈ lexemes ↔ other = lexeme

/-- Any operator but a terminator has one lexeme. -/
theorem Operator.onlyLexeme_spelling {o : Operator} (h : o ≠ .lineEnd) :
    o.OnlyLexeme o.spelling.toList := by
  have known : (o.spelling.toList, o.unsigned) ∈ lexemes := by cases o <;> decide
  have unique : ∀ entry ∈ lexemes, entry.2 = o.unsigned → entry.1 = o.spelling.toList := by
    cases o <;> first | decide | exact absurd rfl h
  intro other
  constructor
  · exact fun ho => unique _ ho rfl
  · rintro rfl
    exact known

namespace NodeHead
variable {head : NodeHead} {k : Kind}

/-- A leaf has its value from a token that is no operator. -/
theorem isOperator_of_kind? (h : head.kind? = some k) : k.isOperator = false := by
  cases head with
  | expr head =>
    cases head with
    | leaf leaf => cases leaf <;> cases h <;> rfl
    | _ => cases h
  | _ => cases h

/-- Only the leaf of a number has the kind of one. -/
theorem eq_of_kind?_number (h : head.kind? = some .number) : head = .expr (.leaf .number) := by
  cases head with
  | expr head =>
    cases head with
    | leaf leaf => cases leaf <;> first | rfl | cases h
    | _ => cases h
  | _ => cases h

end NodeHead

/-- Lists are mapped to one list if their members that go together are mapped to one thing. -/
theorem map_eq_map_of_forall₂ {α β : Type} {R : α → α → Prop} {f : α → β} {as bs : List α}
    (hr : List.Forall₂ R as bs) (h : ∀ a ∈ as, ∀ b ∈ bs, R a b → f a = f b) :
    as.map f = bs.map f := by
  induction hr with
  | nil => rfl
  | cons hab _ ih =>
    rw [List.map_cons, List.map_cons, h _ List.mem_cons_self _ List.mem_cons_self hab,
      ih fun a ha b hb => h a (List.mem_cons_of_mem _ ha) b (List.mem_cons_of_mem _ hb)]

namespace Node
variable {a b n : Node}

/-- Whether the tokens of a node are names and operators, each operator is written as its one
lexeme, and just the leaves for numbers have a number, which is neither negative nor a NaN. -/
structure Canonical (n : Node) : Prop where
  token : ∀ t ∈ n.tokens, ∃ s, t.value = .text s ∧
    (t.kind = .ident ∨ ∃ o : Operator, t.kind = .op o ∧ o.OnlyLexeme s.toList)
  number : n.head = .expr (.leaf .number) → ∃ m, n.value = .number (.ofMagnitude m)
  head_of_number : ∀ x, n.value = .number x → n.head = .expr (.leaf .number)

/-- The tokens of a node are names and operators. -/
theorem WellFormed.kind_of_mem (h : n.WellFormed) {t : Token} (ht : t ∈ n.tokens) :
    t.kind = .ident ∨ ∃ o ≠ Operator.lineEnd, t.kind = .op o := by
  have operator {operators : List Operator} (hl : .lineEnd ∉ operators)
      (hk : t.kind ∈ operators.map .op) :
      t.kind = .ident ∨ ∃ o ≠ Operator.lineEnd, t.kind = .op o := by
    obtain ⟨o, ho, kind⟩ := List.mem_map.1 hk
    exact .inr ⟨o, ne_of_mem_of_not_mem ho hl, kind.symm⟩
  cases n with
  | expr e =>
    cases e with
    | leaf | call | group => cases ht
    | binary =>
      obtain rfl := List.mem_singleton.1 ht
      exact operator (by decide) h
    | unary =>
      obtain rfl := List.mem_singleton.1 ht
      exact operator (by decide) h
  | call =>
    obtain rfl := List.mem_singleton.1 ht
    exact .inl h.1
  | params => exact .inl (h t ht)
  | statement s =>
    cases s with
    | assign =>
      obtain rfl := List.mem_singleton.1 ht
      exact .inl h.1
    | _ => cases ht
  | function =>
    obtain rfl := List.mem_singleton.1 ht
    exact .inl h
  | args | clause | program => cases ht

/-- No token of a well-formed node is a terminator. -/
theorem WellFormed.ne_lineEnd (h : n.WellFormed) {t : Token} (ht : t ∈ n.tokens) :
    t.kind ≠ .op .lineEnd := by
  intro hl
  rcases h.kind_of_mem ht with ident | ⟨o, ho, op⟩
  · cases hl.symm.trans ident
  · cases hl.symm.trans op
    exact ho rfl

/-- Values that are the same are equal in nodes that are made alike of scanned tokens. -/
theorem MadeOf.value_eq (ha : a.MadeOf Token.Scanned) (hb : b.MadeOf Token.Scanned)
    (head : a.head = b.head) (h : a.value.same b.value = true) : a.value = b.value := by
  obtain ⟨-, ha⟩ := ha
  obtain ⟨-, hb⟩ := hb
  rw [← head] at hb
  cases hk : a.head.kind? with
  | none =>
    rw [hk] at ha hb
    exact ha.trans hb.symm
  | some kind =>
    rw [hk] at ha hb
    obtain ⟨s, hs, rfl, source⟩ := ha
    obtain ⟨t, ht, kind, source'⟩ := hb
    rw [← source, ← source'] at h ⊢
    refine Kind.Takes.eq hs (kind ▸ ht) (fun hl => ?_) fun _ => h
    have operator := NodeHead.isOperator_of_kind? hk
    rw [hl] at operator
    cases operator

/-- Trees that are the same are written equally, where they are made of scanned tokens and no
terminator stands in the first one. -/
theorem render_eq_of_same (hw : a.Everywhere WellFormed) (ha : a.Everywhere (MadeOf Token.Scanned))
    (hb : b.Everywhere (MadeOf Token.Scanned)) (h : a.same b = true) : a.render = b.render := by
  induction a using Node.induction generalizing b with
  | node a ih =>
    obtain ⟨⟨head, value, tokens⟩, children⟩ := same_iff.1 h
    have value : a.value = b.value := (ha a .refl).value_eq (hb b .refl) head value
    have tokens : a.tokens.map Token.render = b.tokens.map Token.render :=
      map_eq_map_of_forall₂ tokens fun s hs t ht hst =>
        ((ha a .refl).1 s hs).render_eq ((hb b .refl).1 t ht) ((hw a .refl).ne_lineEnd hs) hst
    have children : a.children.map render = b.children.map render :=
      map_eq_map_of_forall₂ children fun m hm n hn hmn =>
        ih m hm (fun k hk => hw k (.child hm hk)) (fun k hk => ha k (.child hm hk))
          (fun k hk => hb k (.child hn hk)) hmn
    rw [render_eq a, render_eq b, head, value, tokens, children]

/-- In a tree that is made of scanned tokens, no terminator among them, every node is canonical. -/
theorem WellFormed.canonical (hw : n.WellFormed) (hn : n.MadeOf Token.Scanned) : n.Canonical where
  token t ht := by
    have scanned := hn.1 t ht
    rcases hw.kind_of_mem ht with ident | ⟨o, ho, op⟩
    · rw [Token.Scanned, ident] at scanned
      obtain ⟨s, hs⟩ := scanned
      exact ⟨s, hs, .inl ident⟩
    · rw [Token.Scanned, op] at scanned
      exact ⟨o.spelling, scanned ho, .inr ⟨o, op, Operator.onlyLexeme_spelling ho⟩⟩
  number head := by
    have value := hn.2
    rw [head] at value
    obtain ⟨t, ht, kind, value⟩ := value
    rw [Token.Scanned, kind, value] at ht
    exact ht
  head_of_number x hx := by
    have value := hn.2
    cases hk : n.head.kind? with
    | none =>
      rw [hk, hx] at value
      cases value
    | some kind =>
      rw [hk, hx] at value
      obtain ⟨t, ht, rfl, value⟩ := value
      rw [Token.Scanned, value] at ht
      rw [ht.eq_number (NodeHead.isOperator_of_kind? hk)] at hk
      exact NodeHead.eq_of_kind?_number hk

end Node

/-- Equal parses are written equally. In every tree that a text is parsed as with the standard
reserved words, each operator is written as its one lexeme and no number is negative or a NaN. So
if the trees of two texts are the same, with entries and radices of their own, their texts are
equal. -/
theorem parse_render_eq {r s : Radix} {entry entry' : Entry} {source source' : String} {a b : Node}
    (ha : parse .standard r entry source = .ok a)
    (hb : parse .standard s entry' source' = .ok b) :
    a.Everywhere Node.Canonical ∧ b.Everywhere Node.Canonical ∧
      (a.same b = true → a.render = b.render) := by
  have wellFormed {r : Radix} {entry : Entry} {source : String} {n : Node}
      (h : parse .standard r entry source = .ok n) : n.Everywhere Node.WellFormed := by
    obtain ⟨_, _, _, _, derives⟩ := exists_derives_of_parse h
    exact derives.forms
  have madeA := parse_madeOf ha
  have madeB := parse_madeOf hb
  exact ⟨fun m hm => (wellFormed ha m hm).canonical (madeA m hm),
    fun m hm => (wellFormed hb m hm).canonical (madeB m hm),
    Node.render_eq_of_same (wellFormed ha) madeA madeB⟩

/-- A sum that is written in radix sixteen, read as an expression, and the same sum in radix ten
with other gaps, read as a condition. -/
theorem parse_render_eq_sum : ∃ a b,
    parse .standard ⟨16, by decide, by decide⟩ .expression "0A+x" = .ok a ∧
    parse .standard .decimal .condition " 10 + x" = .ok b ∧ a.same b = true ∧
    a.Everywhere Node.Canonical ∧ a.render = b.render := by
  have tokens : tokenize .standard ⟨16, by decide, by decide⟩ "0A+x" =
      .ok [⟨.number, .number (.ofMagnitude (.ofNat 10)), ⟨0, 1, 1⟩⟩,
        ⟨.op .add, .text "+", ⟨2, 1, 3⟩⟩, ⟨.ident, .text "x", ⟨3, 1, 4⟩⟩,
        ⟨.eof, .text "EOF", ⟨4, 1, 5⟩⟩] := by decide +kernel
  have tokens' : tokenize .standard .decimal " 10 + x" =
      .ok [⟨.number, .number (.ofMagnitude (.ofNat 10)), ⟨1, 1, 2⟩⟩,
        ⟨.op .add, .text "+", ⟨4, 1, 5⟩⟩, ⟨.ident, .text "x", ⟨6, 1, 7⟩⟩,
        ⟨.eof, .text "EOF", ⟨7, 1, 8⟩⟩] := by decide +kernel
  let sum (plus start name : Location) : Node :=
    .expr (.binary ⟨.op .add, .text "+", plus⟩
      (.leaf .number (.number (.ofMagnitude (.ofNat 10))) start.offset)
      (.leaf .symbol (.text "x") name.offset) start.offset)
  have left : parse .standard ⟨16, by decide, by decide⟩ .expression "0A+x" =
      .ok (sum ⟨2, 1, 3⟩ ⟨0, 1, 1⟩ ⟨3, 1, 4⟩) :=
    (parse_eq_parseTokens KeywordTable.noEnd_standard tokens).trans rfl
  have right : parse .standard .decimal .condition " 10 + x" =
      .ok (sum ⟨4, 1, 5⟩ ⟨1, 1, 2⟩ ⟨6, 1, 7⟩) :=
    (parse_eq_parseTokens KeywordTable.noEnd_standard tokens').trans rfl
  have equal (plus plus' start start' name name' : Location) :
      (sum plus start name).same (sum plus' start' name') = true := by
    simp [sum, Node.same, Expr.same, Token.same, Token.isOperator, Token.hasKind, Kind.isOperator,
      Value.same, Binary64.same, Binary64.ofMagnitude]
  obtain ⟨canonical, -, text⟩ := parse_render_eq left right
  exact ⟨_, _, left, right, equal .., canonical, text (equal ..)⟩

end Quill
