import Quill.Proofs.Layout
import Quill.Tree.Same

/-!
# Writing trees

`Expr.Written e ws` says that the words `ws` are a way to write the tree: its tokens in order, where
the arguments of a call, if there are any, may be followed by one more comma. The same goes for
statements and programs, which have but one way to be written as far as no call stands in them.

A tree knows the kind of its first word (`Expr.first`).
-/

namespace Quill

/-! ## Words of a tree -/

/-- The binary operator that is spelled as the operator is. -/
def Operator.unsigned : Operator → Operator
  | pos => add
  | neg => sub
  | o => o

/-- How an operator is spelled; the end of a line as a semicolon. -/
def Operator.spelling (o : Operator) : String :=
  String.ofList (((lexemes.find? fun entry => entry.2 = o.unsigned).map (·.1)).getD [])

/-- The word of an operator. -/
def Operator.asWord (o : Operator) : Word := ⟨.op o, .text o.spelling⟩

/-- An operator can be written as it is spelled. -/
theorem spells_operator (o : Operator) : Spells o.spelling.toList o.asWord := by
  have known : (o.spelling.toList, o.unsigned) ∈ Operator.lexemes := by cases o <;> decide
  have context : ∃ previous, o.unsigned.inContext previous = o := by
    cases o with
    | add | sub => exact ⟨some .ident, by decide⟩
    | _ => exact ⟨none, by decide⟩
  obtain ⟨previous, ho⟩ := context
  have spells := Spells.op previous known
  rwa [ho, String.ofList_toList] at spells

/-- The word of a reserved word. -/
def Keyword.asWord (k : Keyword) : Word := ⟨.keyword k, .text k.word⟩

/-- The kind of the token that a leaf is made of, if it is made of one. -/
def LeafKind.kind? : LeafKind → Option Kind
  | number => some .number
  | string => some .string
  | symbol => some .ident
  | bool => some .bool
  | call | expr | none => Option.none

mutual

/-- The words are a way to write the expression. -/
def Expr.Written : Expr → List Word → Prop
  | .leaf k v _, ws => ws = k.kind?.toList.map (⟨·, v⟩)
  | .call c _, ws => c.Written ws
  | .group e _, ws =>
    ∃ inner, e.Written inner ∧ ws = Operator.lparen.asWord :: inner ++ [Operator.rparen.asWord]
  | .binary op l r _, ws =>
    ∃ o left right, op.kind = .op o ∧ l.Written left ∧ r.Written right ∧
      ws = left ++ o.asWord :: right
  | .unary op e _, ws => ∃ o operand, op.kind = .op o ∧ e.Written operand ∧ ws = o.asWord :: operand

/-- The words are a way to write the call. -/
def Call.Written : Call → List Word → Prop
  | ⟨name, args, _⟩, ws => ∃ list, args.Written list ∧ ws = name.word :: list

/-- The words are a way to write the arguments with their parentheses. -/
def Args.Written : Args → List Word → Prop
  | ⟨items, _⟩, ws =>
    ∃ inner, WrittenItems items inner ∧
      ws = Operator.lparen.asWord :: inner ++ [Operator.rparen.asWord]

/-- The words are a way to write the arguments: a comma stands between any two of them, and one may
stand after the last. -/
def WrittenItems : List Expr → List Word → Prop
  | [], ws => ws = []
  | e :: es, ws =>
    ∃ first rest, e.Written first ∧ WrittenItems es rest ∧
      (es = [] ∧ ws = first ∨ ws = first ++ Operator.comma.asWord :: rest)

end

/-- The kind of the first word of an expression. -/
def Expr.first : Expr → Kind
  | leaf k _ _ => k.kind?.getD .eof
  | call c _ => c.name.kind
  | group _ _ => .op .lparen
  | binary _ l _ _ => l.first
  | unary op _ _ => op.kind

/-! ## Tokens of a tree

Where the words are those of tokens, the tokens are split as the words are.
-/

section
variable {ts : List Token}

/-- Tokens that spell a word and more words are a token and more tokens. -/
theorem exists_tokens_cons {w : Word} {ws : List Word} (h : ts.map Token.word = w :: ws) :
    ∃ t ts', ts = t :: ts' ∧ t.kind = w.kind ∧ t.value = w.value ∧ ts'.map Token.word = ws := by
  obtain ⟨t, ts', rfl, rfl, rfl⟩ := List.map_eq_cons_iff.1 h
  exact ⟨t, ts', rfl, rfl, rfl, rfl⟩

/-- Tokens that spell words around a word are tokens around a token. -/
theorem exists_tokens_append_cons {left right : List Word} {w : Word}
    (h : ts.map Token.word = left ++ w :: right) :
    ∃ tl t tr, ts = tl ++ t :: tr ∧ t.kind = w.kind ∧ tl.map Token.word = left ∧
      tr.map Token.word = right := by
  obtain ⟨tl, ts', rfl, rfl, hr⟩ := List.map_eq_append_iff.1 h
  obtain ⟨t, tr, rfl, ht, -, rfl⟩ := exists_tokens_cons hr
  exact ⟨tl, t, tr, rfl, ht, rfl, rfl⟩

/-- Tokens that spell words between two words are tokens between two tokens. -/
theorem exists_tokens_between {first last : Word} {inner : List Word}
    (h : ts.map Token.word = first :: inner ++ [last]) :
    ∃ t ti t', ts = t :: (ti ++ [t']) ∧ t.kind = first.kind ∧ t'.kind = last.kind ∧
      ti.map Token.word = inner := by
  obtain ⟨t, ts', rfl, ht, -, h⟩ := exists_tokens_cons h
  obtain ⟨ti, t', tr, rfl, ht', rfl, hr⟩ := exists_tokens_append_cons h
  obtain rfl := List.map_eq_nil_iff.1 hr
  exact ⟨t, ti, t', rfl, ht, ht', rfl⟩

/-- A binary expression is written with its operator between its operands. -/
theorem Expr.Written.tokens_binary {op : Token} {l r : Expr} {pos : Int}
    (h : (binary op l r pos).Written (ts.map Token.word)) :
    ∃ o tl t tr, ts = tl ++ t :: tr ∧ op.kind = .op o ∧ t.kind = .op o ∧
      l.Written (tl.map Token.word) ∧ r.Written (tr.map Token.word) := by
  obtain ⟨o, left, right, ho, hl, hr, heq⟩ := h
  obtain ⟨tl, t, tr, rfl, ht, rfl, rfl⟩ := exists_tokens_append_cons heq
  exact ⟨o, tl, t, tr, rfl, ho, ht, hl, hr⟩

/-- A unary expression is written with its sign in front. -/
theorem Expr.Written.tokens_unary {op : Token} {e : Expr} {pos : Int}
    (h : (unary op e pos).Written (ts.map Token.word)) :
    ∃ o t te, ts = t :: te ∧ op.kind = .op o ∧ t.kind = .op o ∧ e.Written (te.map Token.word) := by
  obtain ⟨o, operand, ho, he, heq⟩ := h
  obtain ⟨t, te, rfl, ht, -, rfl⟩ := exists_tokens_cons heq
  exact ⟨o, t, te, rfl, ho, ht, he⟩

/-- A group is written with parentheses around it. -/
theorem Expr.Written.tokens_group {e : Expr} {pos : Int}
    (h : (group e pos).Written (ts.map Token.word)) :
    ∃ t te t', ts = t :: (te ++ [t']) ∧ t.kind = .op .lparen ∧ t'.kind = .op .rparen ∧
      e.Written (te.map Token.word) := by
  obtain ⟨inner, he, heq⟩ := h
  obtain ⟨t, te, t', rfl, ht, ht', rfl⟩ := exists_tokens_between heq
  exact ⟨t, te, t', rfl, ht, ht', he⟩

/-- A call is written with its name and its arguments in parentheses. -/
theorem Expr.Written.tokens_call {name : Token} {items : List Expr} {p q pos : Int}
    (h : (call ⟨name, ⟨items, p⟩, q⟩ pos).Written (ts.map Token.word)) :
    ∃ n t ti t', ts = n :: t :: (ti ++ [t']) ∧ n.word = name.word ∧ t.kind = .op .lparen ∧
      t'.kind = .op .rparen ∧ WrittenItems items (ti.map Token.word) := by
  obtain ⟨list, ⟨inner, hi, rfl⟩, heq⟩ := h
  obtain ⟨n, ts', rfl, hn, heq⟩ := List.map_eq_cons_iff.1 heq
  obtain ⟨t, ti, t', rfl, ht, ht', rfl⟩ := exists_tokens_between heq
  exact ⟨n, t, ti, t', rfl, hn, ht, ht', hi⟩

/-- A first argument is written alone, or with a comma and the others after it. -/
theorem WrittenItems.tokens_cons {e : Expr} {es : List Expr}
    (h : WrittenItems (e :: es) (ts.map Token.word)) :
    (es = [] ∧ e.Written (ts.map Token.word)) ∨
      ∃ te t tr, ts = te ++ t :: tr ∧ t.kind = .op .comma ∧ e.Written (te.map Token.word) ∧
        WrittenItems es (tr.map Token.word) := by
  rcases h with ⟨first, rest, he, hes, ⟨rfl, rfl⟩ | heq⟩
  · exact .inl ⟨rfl, he⟩
  · obtain ⟨te, t, tr, rfl, ht, rfl, rfl⟩ := exists_tokens_append_cons heq
    exact .inr ⟨te, t, tr, rfl, ht, he, hes⟩

/-- A leaf is written with one token of its kind. -/
theorem Expr.Written.tokens_leaf {k : LeafKind} {v : Value} {pos : Int} {kind : Kind}
    (h : (leaf k v pos).Written (ts.map Token.word)) (hk : k.kind? = some kind) :
    ∃ t, ts = [t] ∧ t.kind = kind ∧ t.value = v := by
  rw [Written, hk] at h
  obtain ⟨t, ts', rfl, ht, hv, hn⟩ := exists_tokens_cons h
  obtain rfl := List.map_eq_nil_iff.1 hn
  exact ⟨t, rfl, ht, hv⟩

/-- What is written of a tree begins with a token of its first kind, unless nothing is. -/
theorem Expr.Written.exists_first : ∀ {e : Expr} {ts : List Token},
    e.Written (ts.map Token.word) → e.first ≠ .eof → ∃ t ts', ts = t :: ts' ∧ t.kind = e.first
  | .leaf k v pos, ts, h, hf => by
    cases hk : k.kind? with
    | none => exact absurd (by rw [first, hk]; rfl) hf
    | some kind =>
      obtain ⟨t, rfl, ht, -⟩ := h.tokens_leaf hk
      exact ⟨t, [], rfl, by rw [first, hk, ht]; rfl⟩
  | .call ⟨name, ⟨items, p⟩, q⟩ pos, ts, h, hf => by
    obtain ⟨n, t, ti, t', rfl, hn, -⟩ := h.tokens_call
    exact ⟨n, _, rfl, congrArg Word.kind hn⟩
  | .group e pos, ts, h, hf => by
    obtain ⟨t, te, t', rfl, ht, -⟩ := h.tokens_group
    exact ⟨t, _, rfl, ht⟩
  | .binary op l r pos, ts, h, hf => by
    obtain ⟨o, tl, t, tr, rfl, -, -, hl, -⟩ := h.tokens_binary
    obtain ⟨u, us, rfl, hu⟩ := exists_first hl hf
    exact ⟨u, _, rfl, hu⟩
  | .unary op e pos, ts, h, hf => by
    obtain ⟨o, t, te, rfl, ho, ht, -⟩ := h.tokens_unary
    exact ⟨t, _, rfl, ht.trans ho.symm⟩

end

/-- Whether the token is a name. -/
def Token.IsName (t : Token) : Prop := t.kind = .ident ∧ ∃ name, t.value = .text name

/-- Operators are the same if they are of the same kind. -/
theorem Token.same_of_op {t u : Token} {o : Operator} (ht : t.kind = .op o) (hu : u.kind = .op o) :
    t.same u = true := by
  have op : t.isOperator = true := by simp [isOperator, ht, Kind.isOperator]
  rw [same, op, Bool.true_or, if_pos rfl]
  exact hasKind_of_eq (ht.trans hu.symm)

/-- Binary expressions are the same if their operators and their operands are. -/
theorem Expr.same_binary {t op : Token} {o : Operator} {l l' r r' : Expr} {p q : Int}
    (ht : t.kind = .op o) (hop : op.kind = .op o) (hl : l'.same l = true) (hr : r'.same r = true) :
    (binary t l' r' p).same (binary op l r q) = true := by
  simp [same, Token.same_of_op ht hop, hl, hr]

/-- Unary expressions are the same if their signs and their operands are. -/
theorem Expr.same_unary {t op : Token} {o : Operator} {e e' : Expr} {p q : Int}
    (ht : t.kind = .op o) (hop : op.kind = .op o) (he : e'.same e = true) :
    (unary t e' p).same (unary op e q) = true := by
  simp [same, Token.same_of_op ht hop, he]

/-- A token with the word of a name is the same as the name. -/
theorem Token.same_of_isName {t u : Token} (hu : u.IsName) (h : t.word = u.word) :
    t.same u = true := by
  obtain ⟨hk, name, hv⟩ := hu
  have kind : t.kind = .ident := (congrArg Word.kind h).trans hk
  have value : t.value = .text name := (congrArg Word.value h).trans hv
  simp [same, isOperator, kind, hk, value, hv, Kind.isOperator, Value.same]

/-! ## Signs

After an operand a plus or minus joins two operands, elsewhere it is a sign. What is written of a
tree has them where they are taken for what they are.
-/

/-- The sign of an operand fits where no operand ends. -/
theorem signFits_of_sign {previous : Option Kind} {k : Kind} (hp : ¬EndsOperand previous)
    (h : k = .op .pos ∨ k = .op .neg) : SignFits previous k := by
  refine ⟨fun he => absurd he hp, ?_⟩
  intro _
  rcases h with rfl | rfl <;> decide

/-- Whether the words fit after an operand. -/
def FitAfterOperand (ws : List Word) : Prop := ∀ k ∈ Kind.beforeBinary, Fit (some k) ws

/-- No words at all fit after an operand. -/
theorem fitAfterOperand_nil : FitAfterOperand [] := fun _ _ => trivial

/-- A closing parenthesis fits after an operand, if what comes after it fits after one. -/
theorem fitAfterOperand_rparen {ws : List Word} (h : FitAfterOperand ws) :
    FitAfterOperand (Operator.rparen.asWord :: ws) :=
  fun _ _ => ⟨signFits_of_not_mem (by decide), h _ (by decide)⟩

/-- What fits between two words fits with them around it. -/
theorem fit_between {previous : Option Kind} {w w' : Word} {inner rest : List Word}
    (hw : SignFits previous w.kind) (h : Fit (some w.kind) (inner ++ w' :: rest)) :
    Fit previous (w :: inner ++ [w'] ++ rest) := by
  have words : w :: inner ++ [w'] ++ rest = w :: (inner ++ w' :: rest) := by simp
  rw [words]
  exact ⟨hw, h⟩

/-- The operators that stand between operands. -/
def Operator.binary : List Operator :=
  [pow] ++ multiplicative ++ additive ++ relational ++ [and, or]

/-- An operator is in a list if its kind is among theirs. -/
theorem Operator.mem_of_kind {o : Operator} {os : List Operator} {kind : Kind}
    (h : kind ∈ os.map Kind.op) (hk : kind = .op o) : o ∈ os := by
  obtain ⟨o', ho, heq⟩ := List.mem_map.1 h
  rw [hk] at heq
  cases heq
  exact ho

/-- Operands that fit do so with a binary operator between them. -/
theorem fit_join {previous : Option Kind} {o : Operator} {left right rest : List Word}
    (ho : o ∈ Operator.binary) (hl : ∀ {rest}, FitAfterOperand rest → Fit previous (left ++ rest))
    (hr : ∀ {rest}, ¬EndsOperand (some (.op o)) → FitAfterOperand rest →
      Fit (some (.op o)) (right ++ rest)) (h : FitAfterOperand rest) :
    Fit previous (left ++ o.asWord :: right ++ rest) := by
  have all : ∀ o ∈ Operator.binary, Kind.op o ≠ .op .pos ∧ Kind.op o ≠ .op .neg ∧
      ¬EndsOperand (some (.op o)) := by decide
  obtain ⟨pos, neg, ends⟩ := all o ho
  rw [List.append_assoc]
  exact hl fun k hk => ⟨⟨fun _ => ⟨pos, neg⟩, fun he => absurd (decide_eq_true hk) he⟩, hr ends h⟩

end Quill
