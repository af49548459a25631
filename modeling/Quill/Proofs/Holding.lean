import Quill.Proofs.Coverage
import Quill.Proofs.Equality
import Quill.Proofs.Progress
import Quill.Proofs.WellFormed

/-!
# What a tree holds has been read

A parse makes up no token and no value. Each token that a part of a tree carries is one that the
reader came to, and the value of a leaf is that of a token of the kind that goes with the leaf; only
the placeholder has none (`Node.MadeOf`). So what is true of all tokens that can be read from a
state (`Offers`) is true of everything in the trees that rules come to from there
(`Rule.Derives.madeOf`).

Of the tokens that a lexer makes with the standard table of reserved words the values go with the
kinds (`Kind.Takes`): an operator has its spelling, a numeral a number that is neither negative nor
a NaN, a truth value a truth value, and all others a text. The result is `parse_madeOf`.
-/

namespace Quill

open TokenReader

/-! ## Parts made of tokens -/

/-- The kind of the token that a leaf has its value from. -/
def NodeHead.kind? : NodeHead → Option Kind
  | .expr (.leaf k) => k.kind?
  | _ => none

/-- Whether the node carries nothing of its own but tokens that `T` is true of and, if it is a leaf,
the value of one. -/
def Node.MadeOf (T : Token → Prop) (n : Node) : Prop :=
  (∀ t ∈ n.tokens, T t) ∧
    match n.head.kind? with
    | some kind => ∃ t, T t ∧ t.kind = kind ∧ t.value = n.value
    | none => n.value = .absent

section
variable {σ : Type} [TokenReader σ] {T : Token → Prop} {s s' : σ} {t : Token} {kind : Kind}

/-- Whether `T` is true of all tokens that the reader can come to. -/
def Offers (T : Token → Prop) (s : σ) : Prop :=
  ∀ s' t, ReadsTo s s' → current? s' = some t → T t

/-- What all tokens still to come have, those after reading on have. -/
theorem Offers.readsTo (h : Offers T s) (hr : ReadsTo s s') : Offers T s' :=
  fun s₁ t hr₁ ht => h s₁ t (hr.trans hr₁) ht

/-- What all tokens still to come have, the current one has. -/
theorem Offers.current (h : Offers T s) (ht : current? s = some t) : T t := h s t .refl ht

/-- What all tokens still to come have, the one consumed has and those after it. -/
theorem Offers.consumes (h : Offers T s) (hc : Consumes kind s t s') : T t ∧ Offers T s' :=
  ⟨h.current hc.current, h.readsTo hc.readsTo⟩

/-- The trees that a rule comes to are made of tokens in every part, where the rule of a chain is
given one that is. -/
def Rule.Holds (T : Token → Prop) : {c : Category} → Rule c → c.Tree → Prop
  | _, exprTail l, e | _, termTail l, e | _, disjunctionTail l, e | _, conjunctionTail l, e
  | _, comparisonTail l, e =>
    (Node.expr l).Everywhere (Node.MadeOf T) → (Node.expr e).Everywhere (Node.MadeOf T)
  | _, names, ns => ∀ n ∈ ns, T n
  | c, _, a => (c.nodes a).Forall (·.Everywhere (Node.MadeOf T))

/-- A leaf that has its value from a token. -/
theorem Node.everywhere_madeOf_leaf {k : LeafKind} {pos : Int} (ht : T t)
    (hk : k.kind? = some t.kind) :
    (Node.expr (.leaf k t.value pos)).Everywhere (Node.MadeOf T) := by
  refine Node.everywhere_iff.2 ⟨⟨fun _ h => absurd h List.not_mem_nil, ?_⟩, trivial⟩
  show match k.kind? with
    | some kind => ∃ u, T u ∧ u.kind = kind ∧ u.value = t.value
    | none => t.value = .absent
  rw [hk]
  exact ⟨t, ht, rfl, rfl⟩

/-- An operator between two operands. -/
theorem Node.everywhere_madeOf_binary {l r : Expr} {pos : Int} (ht : T t)
    (hl : (Node.expr l).Everywhere (Node.MadeOf T))
    (hr : (Node.expr r).Everywhere (Node.MadeOf T)) :
    (Node.expr (.binary t l r pos)).Everywhere (Node.MadeOf T) :=
  Node.everywhere_iff.2 ⟨⟨List.forall_mem_singleton.2 ht, rfl⟩, hl, hr⟩

/-- An operator before its operand. -/
theorem Node.everywhere_madeOf_unary {e : Expr} {pos : Int} (ht : T t)
    (he : (Node.expr e).Everywhere (Node.MadeOf T)) :
    (Node.expr (.unary t e pos)).Everywhere (Node.MadeOf T) :=
  Node.everywhere_iff.2 ⟨⟨List.forall_mem_singleton.2 ht, rfl⟩, he⟩

/-- Every rule comes to trees that are made of tokens that the reader can come to. -/
theorem Rule.Derives.madeOf {c : Category} {rule : Rule c} {s s' : σ} {a : c.Tree}
    (h : rule.Derives s a s') (hs : Offers T s) : rule.Holds T a := by
  have bare {n : Node} (tokens : n.tokens = []) (head : n.head.kind? = none)
      (value : n.value = .absent) : n.MadeOf T := by
    rw [Node.MadeOf, tokens, head]
    exact ⟨List.forall_mem_nil _, value⟩
  induction h with
  | wholeProgram _ ih | wholeExpression _ _ ih _ | wholeCondition _ _ ih _
  | wholeStatement _ _ ih _ => exact ih hs
  | noTerminators | terminators | end_ => trivial
  | program hx _ hf hx' _ _ ihf _ ihfs =>
    have first := hs.readsTo hx.readsTo
    have others := (first.readsTo hf.readsTo).readsTo hx'.readsTo
    exact Node.everywhere_iff.2
      ⟨bare rfl rfl rfl, List.forall_cons .. |>.2 ⟨ihf first, ihfs others⟩⟩
  | noFunctions | noItems | noClauses | noStatements => trivial
  | functions _ _ hf hx _ ihf _ ihfs =>
    exact List.forall_cons .. |>.2
      ⟨ihf hs, ihfs ((hs.readsTo hf.readsTo).readsTo hx.readsTo)⟩
  | function hc hn hp _ ihp ihb =>
    obtain ⟨-, hs⟩ := hs.consumes hc
    obtain ⟨name, hs⟩ := hs.consumes hn
    exact Node.everywhere_iff.2
      ⟨⟨List.forall_mem_singleton.2 name, rfl⟩, ihp hs, ihb (hs.readsTo hp.readsTo)⟩
  | params hc _ _ ih =>
    exact Node.everywhere_iff.2 ⟨⟨ih (hs.consumes hc).2, rfl⟩, trivial⟩
  | noNames => exact fun _ hn => absurd hn List.not_mem_nil
  | lastName _ _ hn => exact List.forall_mem_singleton.2 (hs.consumes hn).1
  | names _ _ hn _ hc _ _ ih =>
    obtain ⟨name, hs⟩ := hs.consumes hn
    exact List.forall_mem_cons.2 ⟨name, ih (hs.consumes hc).2⟩
  | scope hc hx _ _ _ ih =>
    exact Node.everywhere_iff.2
      ⟨bare rfl rfl rfl, ih ((hs.consumes hc).2.readsTo hx.readsTo)⟩
  | statements _ _ ha hx _ iha _ ihas =>
    exact List.forall_cons .. |>.2
      ⟨iha hs, ihas ((hs.readsTo ha.readsTo).readsTo hx.readsTo)⟩
  | block _ _ _ ih | byName _ _ _ ih | byCondition _ _ _ ih | byReturn _ _ _ ih
  | name _ _ _ ih | positive _ _ _ ih | base _ _ _ ih | value _ _ _ _ _ ih
  | lastItem _ _ _ _ _ ih => exact ih hs
  | exponent _ hc _ ih => exact ih (hs.consumes hc).2
  | byValue _ _ _ _ _ ih | expr _ _ _ _ _ ih | byFunction _ _ _ ih | byCall _ _ _ ih =>
    exact Node.everywhere_iff.2 ⟨bare rfl rfl rfl, ih hs⟩
  | empty | retNone => exact Node.everywhere_iff.2 ⟨bare rfl rfl rfl, trivial⟩
  | assign _ _ hn hc _ _ ih =>
    obtain ⟨name, hs⟩ := hs.consumes hn
    exact Node.everywhere_iff.2
      ⟨⟨List.forall_mem_singleton.2 name, rfl⟩, ih (hs.consumes hc).2⟩
  | ret hc _ _ _ _ ih =>
    exact Node.everywhere_iff.2 ⟨bare rfl rfl rfl, ih (hs.consumes hc).2⟩
  | branchElse hc hd hx hcs _ he _ ihc _ ihcs iha =>
    obtain ⟨-, hs⟩ := hs.consumes hc
    have others := (hs.readsTo hd.readsTo).readsTo hx.readsTo
    have last := ((others.readsTo hcs.readsTo).consumes he).2
    exact Node.everywhere_iff.2 ⟨bare rfl rfl rfl, List.forall_cons .. |>.2
      ⟨ihc hs, List.forall_append .. |>.2 ⟨ihcs others, iha last⟩⟩⟩
  | branch hc hd hx _ _ _ ihc _ ihcs =>
    obtain ⟨-, hs⟩ := hs.consumes hc
    have others := (hs.readsTo hd.readsTo).readsTo hx.readsTo
    exact Node.everywhere_iff.2 ⟨bare rfl rfl rfl, List.forall_cons .. |>.2
      ⟨ihc hs, List.forall_append .. |>.2 ⟨ihcs others, trivial⟩⟩⟩
  | clauses _ hc hd hx _ ihc _ ihcs =>
    obtain ⟨-, hs⟩ := hs.consumes hc
    exact List.forall_cons .. |>.2
      ⟨ihc hs, ihcs ((hs.readsTo hd.readsTo).readsTo hx.readsTo)⟩
  | clause he _ ihe iha =>
    exact Node.everywhere_iff.2 ⟨bare rfl rfl rfl, ihe hs, iha (hs.readsTo he.readsTo)⟩
  | sum hl _ ihl iht | product hl _ ihl iht | disjunction hl _ ihl iht
  | conjunction hl _ ihl iht | comparison hl _ ihl iht =>
    exact iht (hs.readsTo hl.readsTo) (ihl hs)
  | sumEnd | productEnd | disjunctionEnd | conjunctionEnd | comparisonEnd => exact id
  | sumTail _ hc hr _ ihr iht | productTail _ hc hr _ ihr iht
  | disjunctionTail _ hc hr _ ihr iht | conjunctionTail _ hc hr _ ihr iht
  | comparisonTail _ hc hr _ ihr iht =>
    obtain ⟨op, hs⟩ := hs.consumes hc
    exact fun hl =>
      iht (hs.readsTo hr.readsTo) (Node.everywhere_madeOf_binary op hl (ihr hs))
  | power hl ht _ _ ihl ihr =>
    have after := hs.readsTo hl.readsTo
    exact Node.everywhere_madeOf_binary (after.current ht) (ihl hs) (ihr after)
  | number hk hc | string hk hc | bool hk hc | truth hk hc =>
    exact Node.everywhere_madeOf_leaf (hs.consumes hc).1 (congrArg some hk.symm)
  | symbol _ _ hc =>
    have kind := isName hc
    exact Node.everywhere_madeOf_leaf (hs.consumes hc).1 (congrArg some kind.symm)
  | missing => exact Node.everywhere_iff.2 ⟨bare rfl rfl rfl, trivial⟩
  | group _ hc _ _ ih | condition _ hc _ _ ih =>
    exact Node.everywhere_iff.2 ⟨bare rfl rfl rfl, ih (hs.consumes hc).2⟩
  | sign _ hc _ ih | negation _ hc _ ih | opposite _ hc _ ih =>
    obtain ⟨op, hs⟩ := hs.consumes hc
    exact Node.everywhere_madeOf_unary op (ih hs)
  | call hn _ _ ih =>
    obtain ⟨name, hs⟩ := hs.consumes hn
    exact Node.everywhere_iff.2 ⟨⟨List.forall_mem_singleton.2 name, rfl⟩, ih hs⟩
  | args hc _ _ ih =>
    exact Node.everywhere_iff.2 ⟨bare rfl rfl rfl, ih (hs.consumes hc).2⟩
  | items _ _ he _ hc _ _ ihe ihes =>
    exact List.forall_cons .. |>.2 ⟨ihe hs, ihes ((hs.readsTo he.readsTo).consumes hc).2⟩

end

/-! ## The tokens of a text -/

/-- Whether the value is one that goes with the kind. -/
def Kind.Takes : Kind → Value → Prop
  | op o, v => o ≠ .lineEnd → v = .text o.spelling
  | anyOp, _ => False
  | number, v => ∃ m, v = .number (.ofMagnitude m)
  | bool, v => ∃ b, v = .bool b
  | _, v => ∃ s, v = .text s

/-- Whether the value of the token goes with its kind. -/
def Token.Scanned (t : Token) : Prop := t.kind.Takes t.value

/-- The number of a numeral has no sign and is not a NaN. -/
theorem Radix.exists_magnitude_of_number {r : Radix} {text : List Char} {pos : Int} {x : Binary64}
    (h : r.number text pos = .ok x) : ∃ m, x = .ofMagnitude m := by
  unfold number at h
  split at h
  · cases h
    exact ⟨_, rfl⟩
  · cases h

/-- A lexeme makes a token whose value goes with its kind. -/
theorem Lexeme.scanned {r : Radix} {previous : Option Kind} {after text : List Char} {t : Token}
    (h : Lexeme .standard r previous after t text) : t.Scanned := by
  have proper := h.proper
  cases h with
  | number _ _ hx =>
    obtain ⟨m, rfl⟩ := Radix.exists_magnitude_of_number hx
    exact ⟨m, rfl⟩
  | keyword _ _ hl =>
    obtain ⟨k, -, rfl⟩ := KeywordTable.exists_of_lookup_standard hl
    exact ⟨_, rfl⟩
  | truth | name | string => exact ⟨_, rfl⟩
  | op => exact fun hl => congrArg Word.value (proper.word_of_op rfl hl)

namespace Lexer
variable {l l' : Lexer} {t : Token}

/-- A token that is read is one that is scanned. -/
theorem scanned_of_advance (hk : l.keywords = .standard) (h : advance l = .ok t l') :
    t.Scanned := by
  obtain ⟨scan, -⟩ := advance_eq_ok h
  rw [nextScan] at scan
  by_cases ended : l.skipGap.cursor.rest = []
  · rw [ended] at scan
    cases scan
    exact ⟨_, rfl⟩
  · obtain ⟨-, after, -, lexeme⟩ := Scan.cuts_token ended t scan
    rw [hk] at lexeme
    exact lexeme.scanned

/-- Once a token has been read with the standard table, all tokens are such. -/
theorem offers_of_advance (hk : l.keywords = .standard) (h : advance l = .ok t l') :
    Offers Token.Scanned l' := by
  have step {l l' : Lexer} {t : Token} (hk : l.keywords = .standard) (h : advance l = .ok t l') :
      l'.keywords = .standard ∧ ∀ u, l'.current = some u → u.Scanned := by
    refine ⟨(keywords_of_advance h).trans hk, fun u hu => ?_⟩
    cases (current_of_advance_ok h).symm.trans hu
    exact scanned_of_advance hk h
  intro l₁ u hr
  have reached : l₁.keywords = .standard ∧ ∀ u, l₁.current = some u → u.Scanned := by
    induction hr with
    | refl => exact step hk h
    | tail _ next ih =>
      obtain ⟨v, ha⟩ := next
      exact step ih.1 ha
  exact reached.2 u

end Lexer

/-- A parsed tree is made of tokens whose values go with their kinds, in every part. -/
theorem parse_madeOf {r : Radix} {entry : Entry} {source : String} {node : Node}
    (h : parse .standard r entry source = .ok node) :
    node.Everywhere (Node.MadeOf Token.Scanned) := by
  obtain ⟨t, l, l', ha, derives⟩ := exists_derives_of_parse h
  exact derives.madeOf (Lexer.offers_of_advance rfl ha)

end Quill
