import Quill.Proofs.Written

/-!
# Arithmetic is read back

The arithmetic trees are sorted by what can stand in them without parentheses (`Expr.Arithmetic`): a
sign binds tighter than a power, a power tighter than a product, a product tighter than a sum; sums
and products lean to the left, powers to the right. Every such tree, written down, is parsed as
itself (`parse_written_arithmetic`).

The proof goes through the tokens. A rule that is given the tokens of a tree stops after them if the
token that comes next cannot go on with it (`Level.goesOn`). The rules for products and sums are
given the left operand before the operators that follow it, so what is said of them leaves open what
is joined to the tree (`Level.Reads`).
-/

namespace Quill

open TokenReader

/-! ## Arithmetic trees -/

/-- Whether the value is one that a leaf of the kind carries. -/
def LeafKind.Holds : LeafKind → Value → Prop
  | number, .number x => x ≠ .nan
  | string, .text _ | symbol, .text _ | bool, .bool _ => True
  | _, _ => False

/-- How tight an arithmetic tree is. -/
inductive Level where
  /-- A leaf, a call or an expression in parentheses. -/
  | operand
  /-- An operand with any number of signs. -/
  | signed
  | power | product | sum

/-- Whether the tree is arithmetic that can stand at a level. -/
inductive Expr.Arithmetic : Level → Expr → Prop
  | leaf {k : LeafKind} {v : Value} {pos : Int} : k.Holds v →
      (Expr.leaf k v pos).Arithmetic .operand
  | call {name : Token} {items : List Expr} {p q pos : Int} : name.IsName →
      (∀ e ∈ items, e.Arithmetic .sum) →
      (Expr.call ⟨name, ⟨items, p⟩, q⟩ pos).Arithmetic .operand
  | group {e : Expr} {pos : Int} : e.Arithmetic .sum → (Expr.group e pos).Arithmetic .operand
  | operand {e : Expr} : e.Arithmetic .operand → e.Arithmetic .signed
  | sign {op : Token} {e : Expr} {pos : Int} : op.kind = .op .pos ∨ op.kind = .op .neg →
      e.Arithmetic .signed → (Expr.unary op e pos).Arithmetic .signed
  | signed {e : Expr} : e.Arithmetic .signed → e.Arithmetic .power
  | power {op : Token} {l r : Expr} {pos : Int} : op.kind = .op .pow → l.Arithmetic .signed →
      r.Arithmetic .power → (Expr.binary op l r pos).Arithmetic .power
  | powers {e : Expr} : e.Arithmetic .power → e.Arithmetic .product
  | product {op : Token} {l r : Expr} {pos : Int} : op.kind ∈ Operator.multiplicative.map .op →
      l.Arithmetic .product → r.Arithmetic .power → (Expr.binary op l r pos).Arithmetic .product
  | products {e : Expr} : e.Arithmetic .product → e.Arithmetic .sum
  | sum {op : Token} {l r : Expr} {pos : Int} : op.kind ∈ Operator.additive.map .op →
      l.Arithmetic .sum → r.Arithmetic .product → (Expr.binary op l r pos).Arithmetic .sum

/-- A value that a leaf can hold is the same as itself. -/
theorem LeafKind.Holds.same {k : LeafKind} {v : Value} (h : k.Holds v) : v.same v = true := by
  cases v with
  | number x =>
    cases x with
    | nan => cases k <;> first | exact absurd rfl h | exact h.elim
    | signed s m => simp [Value.same, Binary64.same]
  | text s => simp [Value.same]
  | bool b => simp [Value.same]
  | absent => rfl

/-! ## Reading -/

/-- The kinds of token that go on with a tree of the level. A parenthesis goes on with a name. -/
def Level.goesOn : Level → List Kind
  | operand | signed => [.op .lparen]
  | power => [.op .lparen, .op .pow]
  | product => [.op .lparen, .op .pow] ++ Operator.multiplicative.map .op
  | sum => [.op .lparen, .op .pow] ++ Operator.multiplicative.map .op ++ Operator.additive.map .op

/-- A power does not go on with a sign of a product. -/
theorem Level.not_mem_goesOn_power :
    ∀ k ∈ Operator.multiplicative.map Kind.op, k ∉ Level.power.goesOn := by decide

/-- A product does not go on with a sign of a sum. -/
theorem Level.not_mem_goesOn_product :
    ∀ k ∈ Operator.additive.map Kind.op, k ∉ Level.product.goesOn := by decide

/-- The rule of the level reads the tokens as the tree, whatever comes next that does not go on with
it. After a product or a sum further operands may follow. -/
def Level.Reads : Level → Expr → List Token → Prop
  | operand, e, ts | signed, e, ts => ∀ u us, u.kind ∉ Level.signed.goesOn →
    Rule.factor.Derives (Tape.mk (ts ++ u :: us)) e ⟨u :: us⟩
  | power, e, ts => ∀ u us, u.kind ∉ Level.power.goesOn →
    Rule.power.Derives (Tape.mk (ts ++ u :: us)) e ⟨u :: us⟩
  | product, e, ts => ∀ u us, u.kind ∉ Level.power.goesOn → ∀ a s,
    (Rule.termTail e).Derives ⟨u :: us⟩ a s → Rule.term.Derives (Tape.mk (ts ++ u :: us)) a s
  | sum, e, ts => ∀ u us, u.kind ∉ Level.product.goesOn → ∀ a s,
    (Rule.exprTail e).Derives ⟨u :: us⟩ a s → Rule.expr.Derives (Tape.mk (ts ++ u :: us)) a s

/-- What is read as a product is derived as a term before a token that does not go on with it. -/
theorem Level.Reads.term {e : Expr} {ts : List Token} (h : Level.product.Reads e ts) {u : Token}
    {us : List Token} (hu : u.kind ∉ Level.product.goesOn) :
    Rule.term.Derives (Tape.mk (ts ++ u :: us)) e ⟨u :: us⟩ := by
  simp only [goesOn, List.mem_append, not_or] at hu
  exact h u us hu.1 _ _ (.productEnd rfl hu.2)

/-- What is read as a sum is derived as an expression before a token that does not go on with it. -/
theorem Level.Reads.expr {e : Expr} {ts : List Token} (h : Level.sum.Reads e ts) {u : Token}
    {us : List Token} (hu : u.kind ∉ Level.sum.goesOn) :
    Rule.expr.Derives (Tape.mk (ts ++ u :: us)) e ⟨u :: us⟩ := by
  simp only [goesOn, List.mem_append, not_or] at hu
  refine h u us ?_ _ _ (.sumEnd rfl hu.2)
  simpa only [goesOn, List.mem_append, not_or] using hu.1

/-- A leaf that holds a value is made of one token, a literal or a name. -/
theorem LeafKind.Holds.exists_kind {k : LeafKind} {v : Value} (h : k.Holds v) :
    ∃ kind, k.kind? = some kind ∧ kind ∈ [Kind.number, .string, .bool, .ident] := by
  cases k with
  | number | string | symbol | bool => exact ⟨_, rfl, by decide⟩
  | call | expr | none => exact h.elim

/-- The kinds that an arithmetic tree begins with. A power sign that stands first is dropped by the
parser, so no tree begins with one. -/
def Kind.operandStart : List Kind :=
  [number, string, bool, ident, op .lparen, op .pos, op .neg]

/-- An arithmetic tree begins as an operand does. -/
theorem Expr.Arithmetic.first_mem {level : Level} {e : Expr} (h : e.Arithmetic level) :
    e.first ∈ Kind.operandStart := by
  induction h with
  | leaf hv =>
    obtain ⟨kind, hk, hm⟩ := hv.exists_kind
    have begins : ∀ k ∈ [Kind.number, .string, .bool, .ident], k ∈ Kind.operandStart := by
      decide
    rw [first, hk]
    exact begins kind hm
  | call hn =>
    rw [first, hn.1]
    decide
  | group => exact (by decide : Kind.op .lparen ∈ Kind.operandStart)
  | sign ho =>
    rw [first]
    rcases ho with ho | ho <;> rw [ho] <;> decide
  | operand _ ih | signed _ ih | powers _ ih | products _ ih => exact ih
  | power _ _ _ ih | product _ _ _ ih | sum _ _ _ ih => exact ih

/-- An arithmetic tree begins with a kind that can begin an expression. -/
theorem Expr.Arithmetic.first_mem_exprStart {level : Level} {e : Expr} (h : e.Arithmetic level) :
    e.first ∈ Kind.exprStart :=
  (by decide : ∀ k ∈ Kind.operandStart, k ∈ Kind.exprStart) _ h.first_mem

/-- An arithmetic tree does not begin with a kind that begins no operand. -/
theorem Expr.Arithmetic.first_ne {level : Level} {e : Expr} (h : e.Arithmetic level) {k : Kind}
    (hk : k ∉ Kind.operandStart) : e.first ≠ k :=
  fun he => hk (he ▸ h.first_mem)

/-- What is written of an arithmetic tree begins with a token that begins an expression. -/
theorem Expr.Arithmetic.exists_first {level : Level} {e : Expr} (h : e.Arithmetic level)
    {ts : List Token} (hw : e.Written (ts.map Token.word)) :
    ∃ t ts', ts = t :: ts' ∧ t.kind ∈ Kind.exprStart := by
  obtain ⟨t, ts', rfl, ht⟩ := hw.exists_first (h.first_ne (by decide))
  exact ⟨t, ts', rfl, by rw [ht]; exact h.first_mem_exprStart⟩

/-- After a comma there is a further argument or the end of the list. -/
theorem separates_items {items : List Expr} (ha : ∀ e ∈ items, e.Arithmetic .sum)
    {ts us : List Token} {u : Token} (hw : WrittenItems items (ts.map Token.word))
    (hu : u.kind = .op .rparen) : Separates Kind.exprStart (Tape.mk (ts ++ u :: us)) := by
  cases items with
  | nil =>
    obtain rfl := List.map_eq_nil_iff.1 hw
    exact ⟨u, rfl, .inl hu⟩
  | cons e es =>
    rcases hw.tokens_cons with ⟨rfl, he⟩ | ⟨te, c, tr, rfl, -, he, -⟩
    · obtain ⟨t, ts', rfl, ht⟩ := (ha e (by simp)).exists_first he
      exact ⟨t, rfl, .inr ht⟩
    · obtain ⟨t, ts', rfl, ht⟩ := (ha e (by simp)).exists_first he
      exact ⟨t, rfl, .inr ht⟩

/-- Arguments are read up to the closing parenthesis if each of them is read. -/
theorem reads_items {items : List Expr} (ha : ∀ e ∈ items, e.Arithmetic .sum)
    (h : ∀ e ∈ items, ∀ {ts : List Token}, e.Written (ts.map Token.word) →
      ∃ e', e'.same e = true ∧ Level.sum.Reads e' ts)
    {ts : List Token} (hw : WrittenItems items (ts.map Token.word)) :
    ∃ items', sameExprs items' items = true ∧ ∀ {u us}, u.kind = .op .rparen →
      Rule.items.Derives (Tape.mk (ts ++ u :: us)) items' ⟨u :: us⟩ := by
  induction items generalizing ts with
  | nil =>
    obtain rfl := List.map_eq_nil_iff.1 hw
    exact ⟨[], by rw [sameExprs], fun hu => .noItems rfl hu⟩
  | cons e es ih =>
    rcases hw.tokens_cons with ⟨rfl, he⟩ | ⟨te, c, tr, rfl, hc, he, hes⟩
    · obtain ⟨e', same, reads⟩ := h e (by simp) he
      obtain ⟨t, ts', rfl, ht⟩ := (ha e (by simp)).exists_first he
      refine ⟨[e'], by simp [sameExprs, same], ?_⟩
      intro u us hu
      refine .lastItem rfl ?_ (reads.expr ?_) rfl ?_
      · rintro hk
        rw [hk] at ht
        exact absurd ht (by decide)
      · rw [hu]
        decide
      · rw [hu]
        decide
    · obtain ⟨e', same, reads⟩ := h e (by simp) he
      obtain ⟨es', sames, readss⟩ := ih (fun e he => ha e (by simp [he]))
        (fun e he => h e (by simp [he])) hes
      obtain ⟨t, ts', rfl, ht⟩ := (ha e (by simp)).exists_first he
      refine ⟨e' :: es', by simp [sameExprs, same, sames], ?_⟩
      intro u us hu
      rw [List.append_assoc]
      refine .items rfl ?_ (reads.expr ?_) hc (Tape.consumes_of_kind (by simp) hc) ?_
        (readss hu)
      · rintro hk
        rw [hk] at ht
        exact absurd ht (by decide)
      · rw [hc]
        decide
      · exact separates_items (fun e he => ha e (by simp [he])) hes hu

/-- The token of a leaf is read as the leaf. -/
theorem LeafKind.Holds.reads {k : LeafKind} {t : Token} {kind : Kind} (hv : k.Holds t.value)
    (hk : k.kind? = some kind) (ht : t.kind = kind) :
    Level.operand.Reads (.leaf k t.value t.pos) [t] := by
  intro u us hu
  have consumes : Consumes kind (Tape.mk (t :: u :: us)) t ⟨u :: us⟩ :=
    Tape.consumes_of_kind (by simp) ht
  cases k with
  | number => cases hk; exact .number ht consumes
  | string => cases hk; exact .string ht consumes
  | bool => cases hk; exact .bool ht consumes
  | symbol =>
    cases hk
    have hu : u.kind ≠ .op .lparen := by simpa [Level.goesOn] using hu
    exact .name rfl ht (.symbol Tape.foresees hu consumes)
  | call | expr | none => exact hv.elim

/-- A call is read if its arguments are. -/
theorem reads_call {n t t' : Token} {ti : List Token} {items : List Expr} (hn : n.kind = .ident)
    (ht : t.kind = .op .lparen) (ht' : t'.kind = .op .rparen)
    (reads : ∀ {u us}, u.kind = .op .rparen →
      Rule.items.Derives (Tape.mk (ti ++ u :: us)) items ⟨u :: us⟩) :
    Level.operand.Reads (.call ⟨n, ⟨items, t.pos⟩, n.pos⟩ n.pos) (n :: t :: (ti ++ [t'])) := by
  intro u us hu
  have tokens : n :: t :: (ti ++ [t']) ++ u :: us = n :: t :: (ti ++ t' :: u :: us) := by simp
  rw [tokens]
  refine .name rfl hn (.byCall Tape.foresees ht (.call (Tape.consumes_of_kind (by simp) hn) rfl ?_))
  exact .args (Tape.consumes_of_kind (by simp) ht) (reads ht')
    (Tape.consumes_of_kind (by simp) ht')

/-- The tokens of an arithmetic tree are read as the tree. -/
theorem Expr.Arithmetic.reads {level : Level} {e : Expr} (h : e.Arithmetic level) {ts : List Token}
    (hw : e.Written (ts.map Token.word)) : ∃ e', e'.same e = true ∧ level.Reads e' ts := by
  induction h generalizing ts with
  | @leaf k v pos hv =>
    obtain ⟨kind, hk, -⟩ := hv.exists_kind
    obtain ⟨t, rfl, ht, rfl⟩ := hw.tokens_leaf hk
    exact ⟨.leaf k t.value t.pos, by simp [Expr.same, hv.same], hv.reads hk ht⟩
  | @call name items p q pos hn ha ih =>
    obtain ⟨n, t, ti, t', rfl, hnw, ht, ht', hi⟩ := hw.tokens_call
    obtain ⟨items', same, reads⟩ := reads_items ha (fun e he _ => ih e he) hi
    have hnk : n.kind = .ident := (congrArg Word.kind hnw).trans hn.1
    refine ⟨.call ⟨n, ⟨items', t.pos⟩, n.pos⟩ n.pos, ?_, reads_call hnk ht ht' reads⟩
    simp [Expr.same, Call.same, Args.same, same, Token.same_of_isName hn hnw]
  | @group e pos _ ih =>
    obtain ⟨t, te, t', rfl, ht, ht', he⟩ := hw.tokens_group
    obtain ⟨e', same, reads⟩ := ih he
    refine ⟨.group e' t.pos, by rwa [Expr.same], ?_⟩
    intro u us hu
    rw [List.cons_append, List.append_assoc]
    refine .group ht (Tape.consumes_of_kind (by simp) ht) (reads.expr ?_)
      (Tape.consumes_of_kind (by simp) ht')
    rw [ht']
    decide
  | operand _ ih =>
    obtain ⟨e', same, reads⟩ := ih hw
    exact ⟨e', same, reads⟩
  | @sign op e pos ho _ ih =>
    obtain ⟨o, t, te, rfl, hop, ht, he⟩ := hw.tokens_unary
    obtain ⟨e', same, reads⟩ := ih he
    refine ⟨.unary t e' t.pos, Expr.same_unary ht hop same, ?_⟩
    intro u us hu
    refine .sign ?_ (Tape.consumes_of_kind (by simp) rfl) (reads u us hu)
    rwa [ht, ← hop]
  | signed _ ih =>
    obtain ⟨e', same, reads⟩ := ih hw
    refine ⟨e', same, ?_⟩
    intro u us hu
    simp only [Level.goesOn, List.mem_cons, not_or] at hu
    refine .base (reads u us ?_) rfl hu.2.1
    simp [Level.goesOn, hu.1]
  | @power op l r pos ho _ _ ihl ihr =>
    obtain ⟨o, tl, t, tr, rfl, hop, ht, hl, hr⟩ := hw.tokens_binary
    obtain ⟨l', samel, readsl⟩ := ihl hl
    obtain ⟨r', samer, readsr⟩ := ihr hr
    have hk : t.kind = .op .pow := by rw [ht, ← hop, ho]
    refine ⟨.binary t l' r' l'.pos, Expr.same_binary ht hop samel samer, ?_⟩
    intro u us hu
    rw [List.append_assoc]
    refine .power (readsl t _ ?_) rfl hk
      (.exponent hk (Tape.consumes_of_kind (by simp) hk) (readsr u us hu))
    rw [hk]
    decide
  | powers _ ih =>
    obtain ⟨e', same, reads⟩ := ih hw
    exact ⟨e', same, fun u us hu a s ha => .product (reads u us hu) ha⟩
  | @product op l r pos ho _ _ ihl ihr =>
    obtain ⟨o, tl, t, tr, rfl, hop, ht, hl, hr⟩ := hw.tokens_binary
    obtain ⟨l', samel, readsl⟩ := ihl hl
    obtain ⟨r', samer, readsr⟩ := ihr hr
    rw [hop, ← ht] at ho
    refine ⟨.binary t l' r' l'.pos, Expr.same_binary ht hop samel samer, ?_⟩
    intro u us hu a s ha
    rw [List.append_assoc]
    refine readsl t _ ?_ a s (.productTail ho
      (Tape.consumes (by simp) (Token.hasKind_anyOp ht)) (readsr u us hu) ha)
    exact Level.not_mem_goesOn_power t.kind ho
  | products _ ih =>
    obtain ⟨e', same, reads⟩ := ih hw
    exact ⟨e', same, fun u us hu a s ha => .sum (reads.term hu) ha⟩
  | @sum op l r pos ho _ _ ihl ihr =>
    obtain ⟨o, tl, t, tr, rfl, hop, ht, hl, hr⟩ := hw.tokens_binary
    obtain ⟨l', samel, readsl⟩ := ihl hl
    obtain ⟨r', samer, readsr⟩ := ihr hr
    rw [hop, ← ht] at ho
    refine ⟨.binary t l' r' l'.pos, Expr.same_binary ht hop samel samer, ?_⟩
    intro u us hu a s ha
    rw [List.append_assoc]
    refine readsl t _ ?_ a s (.sumTail ho
      (Tape.consumes (by simp) (Token.hasKind_anyOp ht)) (readsr.term hu) ha)
    exact Level.not_mem_goesOn_product t.kind ho

/-! ## Kinds of words -/

/-- The kinds of the words that arithmetic trees are written with. -/
def Kind.arithmetic : List Kind :=
  [number, string, bool, ident, op .lparen, op .rparen, op .comma, op .pos, op .neg, op .pow] ++
    Operator.multiplicative.map op ++ Operator.additive.map op

/-- Arguments are written with the words of arithmetic if each of them is. -/
theorem kind_mem_items {items : List Expr}
    (h : ∀ e ∈ items, ∀ {ws : List Word}, e.Written ws → ∀ w ∈ ws, w.kind ∈ Kind.arithmetic)
    {ws : List Word} (hw : WrittenItems items ws) : ∀ w ∈ ws, w.kind ∈ Kind.arithmetic := by
  induction items generalizing ws with
  | nil =>
    obtain rfl : ws = [] := hw
    exact fun w hw => nomatch hw
  | cons e es ih =>
    rcases hw with ⟨first, rest, he, hes, ⟨-, rfl⟩ | rfl⟩
    · exact h e (by simp) he
    · have comma : Operator.comma.asWord.kind ∈ Kind.arithmetic := by decide
      exact List.forall_mem_append.2 ⟨h e (by simp) he, List.forall_mem_cons.2 ⟨comma,
        ih (fun e he => h e (by simp [he])) hes⟩⟩

/-- An arithmetic tree is written with the words of arithmetic. -/
theorem Expr.Arithmetic.kind_mem {level : Level} {e : Expr} (h : e.Arithmetic level)
    {ws : List Word} (hw : e.Written ws) : ∀ w ∈ ws, w.kind ∈ Kind.arithmetic := by
  have lparen : Operator.lparen.asWord.kind ∈ Kind.arithmetic := by decide
  have rparen : ∀ w ∈ [Operator.rparen.asWord], w.kind ∈ Kind.arithmetic := by decide
  induction h generalizing ws with
  | @leaf k v pos hv =>
    obtain ⟨kind, hk, hm⟩ := hv.exists_kind
    obtain rfl : ws = [⟨kind, v⟩] := by rwa [Written, hk] at hw
    have all : ∀ k ∈ [Kind.number, .string, .bool, .ident], k ∈ Kind.arithmetic := by decide
    exact List.forall_mem_singleton.2 (all kind hm)
  | @call name items p q pos hn _ ih =>
    obtain ⟨list, ⟨inner, hi, rfl⟩, rfl⟩ := hw
    have ident : name.word.kind ∈ Kind.arithmetic := by
      rw [show name.word.kind = .ident from hn.1]
      decide
    exact List.forall_mem_cons.2 ⟨ident, List.forall_mem_append.2 ⟨List.forall_mem_cons.2
      ⟨lparen, kind_mem_items ih hi⟩, rparen⟩⟩
  | group _ ih =>
    obtain ⟨inner, hi, rfl⟩ := hw
    exact List.forall_mem_append.2 ⟨List.forall_mem_cons.2 ⟨lparen, ih hi⟩, rparen⟩
  | operand _ ih | signed _ ih | powers _ ih | products _ ih => exact ih hw
  | @sign op e pos ho _ ih =>
    obtain ⟨o, operand, hop, he, rfl⟩ := hw
    refine List.forall_mem_cons.2 ⟨?_, ih he⟩
    rw [show o.asWord.kind = op.kind from hop.symm]
    rcases ho with ho | ho <;> rw [ho] <;> decide
  | @power op l r pos ho _ _ ihl ihr =>
    obtain ⟨o, left, right, hop, hl, hr, rfl⟩ := hw
    refine List.forall_mem_append.2 ⟨ihl hl, List.forall_mem_cons.2 ⟨?_, ihr hr⟩⟩
    rw [show o.asWord.kind = op.kind from hop.symm, ho]
    decide
  | @product op l r pos ho _ _ ihl ihr =>
    obtain ⟨o, left, right, hop, hl, hr, rfl⟩ := hw
    refine List.forall_mem_append.2 ⟨ihl hl, List.forall_mem_cons.2 ⟨?_, ihr hr⟩⟩
    rw [show o.asWord.kind = op.kind from hop.symm]
    exact List.mem_append_left _ (List.mem_append_right _ ho)
  | @sum op l r pos ho _ _ ihl ihr =>
    obtain ⟨o, left, right, hop, hl, hr, rfl⟩ := hw
    refine List.forall_mem_append.2 ⟨ihl hl, List.forall_mem_cons.2 ⟨?_, ihr hr⟩⟩
    rw [show o.asWord.kind = op.kind from hop.symm]
    exact List.mem_append_right _ ho

/-! ## Signs -/

/-- The signs in a list of arguments fit their places if those in each argument do. -/
theorem fit_items {items : List Expr}
    (h : ∀ e ∈ items, ∀ {ws rest : List Word} {previous : Option Kind}, e.Written ws →
      ¬EndsOperand previous → FitAfterOperand rest → Fit previous (ws ++ rest))
    {ws rest : List Word} {previous : Option Kind} (hw : WrittenItems items ws)
    (hp : ¬EndsOperand previous) (hr : FitAfterOperand (Operator.rparen.asWord :: rest)) :
    Fit previous (ws ++ Operator.rparen.asWord :: rest) := by
  induction items generalizing ws previous with
  | nil =>
    obtain rfl : ws = [] := hw
    exact ⟨signFits_of_not_mem (by decide), (hr .number (by decide)).2⟩
  | cons e es ih =>
    rcases hw with ⟨first, more, he, hes, ⟨-, rfl⟩ | rfl⟩
    · exact h e (by simp) he hp hr
    · rw [List.append_assoc]
      refine h e (by simp) he hp fun k hk => ⟨signFits_of_not_mem (by decide), ?_⟩
      exact ih (fun e he => h e (by simp [he])) hes (by decide)

/-- What is written of an arithmetic tree fits where an operand is expected. -/
theorem Expr.Arithmetic.fit {level : Level} {e : Expr} (h : e.Arithmetic level)
    {ws rest : List Word} {previous : Option Kind} (hw : e.Written ws)
    (hp : ¬EndsOperand previous) (hr : FitAfterOperand rest) : Fit previous (ws ++ rest) := by
  induction h generalizing ws rest previous with
  | @leaf k v pos hv =>
    obtain ⟨kind, hk, hm⟩ := hv.exists_kind
    obtain rfl : ws = [⟨kind, v⟩] := by rwa [Written, hk] at hw
    have ends : ∀ k ∈ [Kind.number, .string, .bool, .ident], k ∈ Kind.beforeBinary := by decide
    have plain : ∀ k ∈ [Kind.number, .string, .bool, .ident],
        k ∉ [Operator.add, .sub, .pos, .neg].map Kind.op := by decide
    exact ⟨signFits_of_not_mem (plain kind hm), hr kind (ends kind hm)⟩
  | call hn _ ih =>
    obtain ⟨list, ⟨inner, hi, rfl⟩, rfl⟩ := hw
    refine ⟨signFits_of_not_mem ?_, fit_between (signFits_of_not_mem (by decide)) ?_⟩
    · rw [show Word.kind _ = .ident from hn.1]
      decide
    · exact fit_items ih hi (by decide) (fitAfterOperand_rparen hr)
  | group _ ih =>
    obtain ⟨inner, hi, rfl⟩ := hw
    exact fit_between (signFits_of_not_mem (by decide))
      (ih hi (by decide) (fitAfterOperand_rparen hr))
  | operand _ ih | signed _ ih | powers _ ih | products _ ih => exact ih hw hp hr
  | @sign op e pos ho _ ih =>
    obtain ⟨o, operand, hop, he, rfl⟩ := hw
    rw [hop] at ho
    refine ⟨signFits_of_sign hp ho, ih he ?_ hr⟩
    rcases ho with ho | ho <;> cases ho <;> decide
  | @power op l r pos ho _ _ ihl ihr =>
    obtain ⟨o, left, right, hop, hwl, hwr, rfl⟩ := hw
    obtain rfl : o = .pow := by rwa [hop, Kind.op.injEq] at ho
    exact fit_join (by decide) (ihl hwl hp) (fun hp h => ihr hwr hp h) hr
  | @product op l r pos ho _ _ ihl ihr =>
    obtain ⟨o, left, right, hop, hwl, hwr, rfl⟩ := hw
    have binary : ∀ o ∈ Operator.multiplicative, o ∈ Operator.binary := by decide
    exact fit_join (binary o (Operator.mem_of_kind ho hop)) (ihl hwl hp)
      (fun hp h => ihr hwr hp h) hr
  | @sum op l r pos ho _ _ ihl ihr =>
    obtain ⟨o, left, right, hop, hwl, hwr, rfl⟩ := hw
    have binary : ∀ o ∈ Operator.additive, o ∈ Operator.binary := by decide
    exact fit_join (binary o (Operator.mem_of_kind ho hop)) (ihl hwl hp)
      (fun hp h => ihr hwr hp h) hr

/-- An arithmetic tree, written with single blanks between its tokens, is parsed as a tree that
agrees with it. -/
theorem parse_written_arithmetic {e : Expr} (he : e.Arithmetic .sum) {words : List Word}
    (hw : e.Written words) {texts : List (List Char)} (ht : List.Forall₂ Spells texts words) :
    ∃ e', parse .standard .decimal .expression (String.ofList (spaced texts)) = .ok (.expr e') ∧
      e'.same e = true := by
  have fit : Fit none (words ++ []) := he.fit hw (by decide) fitAfterOperand_nil
  rw [List.append_nil] at fit
  have derives : ∀ (ts : List Token) (u : Token), ts.map Token.word = words → u.kind = .eof →
      ∃ node s, (∃ e', node = .expr e' ∧ e'.same e = true) ∧
        (Rule.entry .expression).Derives (Tape.mk (ts ++ [u])) node s := by
    rintro ts u rfl hu
    obtain ⟨e', same, reads⟩ := he.reads hw
    refine ⟨.expr e', _, ⟨e', rfl, same⟩, .wholeExpression (reads.expr ?_) (Tape.derives_end hu)⟩
    rw [hu]
    decide
  obtain ⟨node, parsed, e', rfl, same⟩ := exists_parse_of_layout (layout_spaced ht) fit derives
  exact ⟨e', parsed, same⟩

/-- The negative of a call with a comma after its only argument. -/
theorem parse_written_arithmetic_negative :
    ∃ e', parse .standard .decimal .expression (String.ofList (spaced
        [['-'], ['f'], ['('], ['.', '5'], [','], [')']])) = .ok (.expr e') ∧
      e'.same (.unary ⟨.op .neg, .text "-", .nowhere⟩
        (.call ⟨⟨.ident, .text "f", .nowhere⟩,
          ⟨[.leaf .number (.number (.ofMagnitude (Decimal.toMagnitude ⟨5, -1⟩))) 0], 0⟩, 0⟩ 0)
        0) = true := by
  have half : Radix.decimal.WellFormed ['.', '5'] :=
    ⟨[], ['5'], by decide, List.all_eq_true.1 (by decide), .inr rfl⟩
  have name : IsName "f" := by decide
  refine @parse_written_arithmetic _ ?tree [Operator.neg.asWord, ⟨.ident, .text "f"⟩,
    Operator.lparen.asWord, ⟨.number, .number (.ofMagnitude (Decimal.toMagnitude ⟨5, -1⟩))⟩,
    Operator.comma.asWord, Operator.rparen.asWord] ?written _ ?spelled
  case tree =>
    refine .products (.powers (.signed (.sign (.inr rfl) (.operand (.call ⟨rfl, "f", rfl⟩ ?_)))))
    intro e he
    cases List.mem_singleton.1 he
    refine .products (.powers (.signed (.operand (.leaf ?_))))
    exact fun h => nomatch h
  case written =>
    refine ⟨.neg, _, rfl, ⟨_, ⟨[⟨.number, .number (.ofMagnitude (Decimal.toMagnitude ⟨5, -1⟩))⟩,
      Operator.comma.asWord], ?_, rfl⟩, rfl⟩, rfl⟩
    exact ⟨_, [], rfl, rfl, .inr rfl⟩
  case spelled =>
    exact .cons (spells_operator .neg) (.cons (.name name) (.cons (spells_operator .lparen)
      (.cons (.numeral half rfl) (.cons (spells_operator .comma)
        (.cons (spells_operator .rparen) .nil)))))

end Quill
