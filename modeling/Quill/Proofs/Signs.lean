import Quill.Proofs.Coverage
import Quill.Proofs.OnDemand
import Quill.Proofs.Tiling
import Quill.Proofs.WellFormed
import Quill.Proofs.Word

/-!
# Signs

The lexer tells a sign that joins two operands from the sign of one operand by the token before it
alone, and knows nothing of the grammar. What it decides fits the grammar all the same
(`parse_signs`).

The last token of an operand makes the next sign a joining one, so a rule that reads an expression
ends where no sign of an operand is next (`Rule.Completes`). Any other token makes it the sign of an
operand. A script reads an operand at its beginning or after such a token, as can be read off each
script (`Script.Places`), so a run of it comes to no operand at a joining sign
(`Rule.placed_of_run`).

In a tree a sign can be nothing but the operator of a node: all other tokens of a yield are names,
brackets and words (`Node.exists_of_mem_yield`).
-/

namespace Quill

open TokenReader LawfulReader

/-- The signs that join two operands. -/
def Kind.joins : List Kind := Operator.additive.map op

/-- The signs of an operand. -/
def Kind.signs : List Kind := [op .pos, op .neg]

/-- A sign that fits after an operand joins operands. -/
theorem SignFits.mem_joins {previous : Option Kind} {k : Kind} (h : SignFits previous k)
    (he : EndsOperand previous) (hk : k ∈ Kind.joins ++ Kind.signs) : k ∈ Kind.joins := by
  refine (List.mem_append.1 hk).resolve_right fun hs => ?_
  simp only [Kind.signs, List.mem_cons, List.not_mem_nil, or_false] at hs
  exact hs.elim (h.1 he).1 (h.1 he).2

/-- A sign that fits where no operand ends is the sign of an operand. -/
theorem SignFits.mem_signs {previous : Option Kind} {k : Kind} (h : SignFits previous k)
    (he : ¬EndsOperand previous) (hk : k ∈ Kind.joins ++ Kind.signs) : k ∈ Kind.signs := by
  refine (List.mem_append.1 hk).resolve_left fun hj => ?_
  simp only [Kind.joins, Operator.additive, List.map_cons, List.map_nil, List.mem_cons,
    List.not_mem_nil, or_false] at hj
  exact hj.elim (h.2 he).1 (h.2 he).2

/-! ## The signs of a text -/

/-- What the context makes of an operator fits it. -/
theorem Operator.signFits_inContext {o : Operator} (ho : o ∉ [Operator.pos, .neg])
    (previous : Option Kind) : SignFits previous (.op (o.inContext previous)) := by
  unfold SignFits inContext
  by_cases he : EndsOperand previous
  · have any : previous.any (· ∈ Kind.beforeBinary) = true := he
    rw [if_pos any]
    refine ⟨fun _ => ?_, fun hn => absurd he hn⟩
    simpa using ho
  · have any : ¬previous.any (· ∈ Kind.beforeBinary) = true := he
    rw [if_neg any]
    refine ⟨fun h => absurd h he, fun _ => ?_⟩
    cases o <;> simp

/-- A sign is what the token before it makes of it. -/
theorem Lexeme.signFits {r : Radix} {previous : Option Kind} {after text : List Char} {t : Token}
    (h : Lexeme .standard r previous after t text) : SignFits previous t.kind := by
  cases h with
  | op mem =>
    have plain : ∀ e ∈ Operator.lexemes, e.2 ∉ [Operator.pos, .neg] := by decide
    exact Operator.signFits_inContext (plain _ mem) previous
  | keyword _ _ hl =>
    obtain ⟨k, -, rfl⟩ := KeywordTable.exists_of_lookup_standard hl
    exact signFits_of_not_mem (by simp)
  | number | truth | name | string => exact signFits_of_not_mem (by simp)

namespace Lexer
variable {l l' : Lexer} {t : Token}

/-- The lexer goes by the standard table, and its current token stands for no class of tokens. -/
structure Plain (l : Lexer) : Prop where
  keywords : l.keywords = .standard
  current : ∀ t, l.current = some t → t.kind ≠ .anyOp

/-- A token that is read fits the one before it. -/
theorem signFits_of_advance (hk : l.keywords = .standard) (h : advance l = .ok t l') :
    SignFits (l.current.map (·.kind)) t.kind := by
  obtain ⟨_, _, _, -, -, -, -, ⟨-, eof⟩ | hl⟩ := exists_pieces_of_advance h
  · rw [eof]
    exact signFits_of_not_mem (by decide)
  · rw [hk] at hl
    exact hl.signFits

/-- A plain lexer is plain after reading a token. -/
theorem Plain.advance (hl : l.Plain) (h : Lexer.advance l = .ok t l') : l'.Plain := by
  obtain ⟨_, _, _, -, -, -, rfl, ending⟩ := exists_pieces_of_advance h
  refine ⟨hl.keywords, ?_⟩
  rintro u ⟨⟩
  rcases ending with ⟨-, eof⟩ | hx
  · rw [eof]
    nofun
  · rw [hl.keywords] at hx
    exact hx.proper.kind_ne_anyOp

/-- A plain lexer is plain after reading any number of tokens. -/
theorem Plain.reaches (hl : l.Plain) (h : Reaches l l') : l'.Plain := by
  induction h with
  | refl => exact hl
  | tail _ step ih =>
    obtain ⟨t, ht⟩ := step
    exact ih.advance ht

end Lexer

section
variable {l l' : Lexer} {t : Token} {kind : Kind}

/-- A plain lexer is plain after consuming a token. -/
theorem Consumes.plain (h : Consumes kind l t l') (hl : l.Plain) : l'.Plain := by
  obtain ⟨-, -, u, ha⟩ := h
  exact hl.advance ha

/-- A token that is consumed is of the kind asked for. -/
theorem Consumes.kind_eq (h : Consumes kind l t l') (hl : l.Plain) (hk : kind ≠ .anyOp) :
    t.kind = kind := by
  have has := h.2.1
  rw [Token.hasKind, if_neg (by simp [hk, hl.current t h.current])] at has
  exact of_decide_eq_true has

/-- The token after one that is consumed fits it. -/
theorem Consumes.signFits (h : Consumes kind l t l') (hl : l.Plain) {u : Token}
    (hu : current? l' = some u) : SignFits (some t.kind) u.kind := by
  obtain ⟨current, -, v, ha⟩ := h
  have fits := Lexer.signFits_of_advance hl.keywords ha
  rw [show l.current = some t from current] at fits
  obtain ⟨-, rfl⟩ := Lexer.advance_eq_ok ha
  cases hu
  exact fits

/-- After the last token of an operand no sign of an operand is next. -/
theorem Consumes.notAt_signs (h : Consumes kind l t l') (hl : l.Plain)
    (ht : t.kind ∈ Kind.beforeBinary) : NotAt Kind.signs l' := by
  intro u hu
  have fits := (h.signFits hl hu).1 (decide_eq_true ht)
  simpa [Kind.signs] using fits

/-- After any other token no sign is next that joins operands. -/
theorem Consumes.notAt_joins (h : Consumes kind l t l') (hl : l.Plain)
    (ht : t.kind ∉ Kind.beforeBinary) : NotAt Kind.joins l' := by
  intro u hu
  have fits := (h.signFits hl hu).2 fun he => ht (of_decide_eq_true he)
  simpa [Kind.joins, Operator.additive] using fits

/-- A plain lexer is plain after any rule. -/
theorem Rule.Derives.plain {c : Category} {rule : Rule c} {a : c.Tree} (h : rule.Derives l a l')
    (hl : l.Plain) : l'.Plain :=
  hl.reaches h.parses.reaches

/-! ## After an operand -/

/-- A rule of expressions ends where no sign of an operand is next; the rule of a chain does where
it begins like that. -/
def Rule.Completes : {c : Category} → Rule c → Lexer → c.Tree → Lexer → Prop
  | _, exprTail _, l, _, l' | _, termTail _, l, _, l' | _, disjunctionTail _, l, _, l'
  | _, conjunctionTail _, l, _, l' | _, comparisonTail _, l, _, l' =>
    NotAt Kind.signs l → NotAt Kind.signs l'
  | .expr, _, _, _, l' | .call, _, _, _, l' | .args, _, _, _, l' => NotAt Kind.signs l'
  | _, _, _, _, _ => True

/-- Every rule of expressions ends where no sign of an operand is next. -/
theorem Rule.Derives.completes {c : Category} {rule : Rule c} {l l' : Lexer} {a : c.Tree}
    (h : rule.Derives l a l') (hl : l.Plain) : rule.Completes l a l' := by
  induction h with
  | sum h _ ihl iht | product h _ ihl iht | disjunction h _ ihl iht | conjunction h _ ihl iht
  | comparison h _ ihl iht => exact iht (h.plain hl) (ihl hl)
  | sumEnd | productEnd | disjunctionEnd | conjunctionEnd | comparisonEnd => exact id
  | sumTail _ hc hr _ ihr iht | productTail _ hc hr _ ihr iht | disjunctionTail _ hc hr _ ihr iht
  | conjunctionTail _ hc hr _ ihr iht | comparisonTail _ hc hr _ ihr iht =>
    exact fun _ => iht (hr.plain (hc.plain hl)) (ihr (hc.plain hl))
  | base _ _ _ ih | name _ _ _ ih | byCall _ _ _ ih | positive _ _ _ ih | value _ _ _ _ _ ih =>
    exact ih hl
  | power h _ _ _ _ ihr => exact ihr (h.plain hl)
  | number hk hc | string hk hc | bool hk hc | truth hk hc =>
    exact hc.notAt_signs hl (by rw [hk]; decide)
  | group _ ho he hc | condition _ ho he hc | args ho he hc =>
    have plain := he.plain (ho.plain hl)
    exact hc.notAt_signs plain (by rw [hc.kind_eq plain nofun]; decide)
  | exponent _ hc _ ih | sign _ hc _ ih | negation _ hc _ ih | opposite _ hc _ ih
  | call hc _ _ ih => exact ih (hc.plain hl)
  | missing ht hk => exact .of_current ht (by rw [hk]; decide)
  | symbol _ _ hc => exact hc.notAt_signs hl (by rw [hc.kind_eq hl nofun]; decide)
  | _ => trivial

end

/-! ## Before an operand -/

/-- The error is not that a sign which joins operands stands where an operand could. -/
def Fault.Placed (e : Fault) : Prop :=
  ∀ rule found expected pos, e = .atPosition (.grammar rule found expected) pos →
    found ∈ Kind.joins → rule = "statement"

/-- Whether the rule can read an operand first. -/
def Rule.operand : {c : Category} → Rule c → Bool
  | _, entry _ | _, clause _ | _, named | _, expr | _, term | _, power | _, factor | _, items
  | _, disjunction | _, conjunction | _, negation | _, comparison | _, comparand => true
  | _, _ => false

/-- A token is rejected in its place if it joins no operands, or the rule is that of statements. -/
theorem Fault.placed_reject {rule item : String} {t : Token} :
    (Fault.diagnostic ⟨.grammar rule t.kind (some item), t.pos⟩).Placed ↔
      (t.kind ∈ Kind.joins → rule = "statement") := by
  simp only [Placed, atPosition, diagnostic.injEq, Diagnostic.mk.injEq, Cause.grammar.injEq]
  constructor
  · exact fun h hk => h _ _ _ _ ⟨⟨rfl, rfl, rfl⟩, rfl⟩ hk
  · rintro h _ _ _ _ ⟨⟨rfl, rfl, -⟩, -⟩ hk
    exact h hk

/-- Whether the script, which finds the token `t`, reads an operand only where no sign is next that
joins operands. After a token that ends no operand there is none. -/
def Script.Places {α : Type} : Script α → Token → Prop
  | done _, _ => True
  | fail d, _ => (Fault.diagnostic d).Placed
  | current next, t => (next t).Places t
  | ahead next, t => ∀ u, (next u).Places t
  | eat kind next, t => kind = .anyOp ∨ t.kind = kind →
    ∀ u, (t.kind ∉ Kind.beforeBinary → u.kind ∉ Kind.joins) → (next t).Places u
  | follow rule next, t =>
    (rule.operand = true → t.kind ∉ Kind.joins) ∧ ∀ a u, (next a).Places u

/-- A choice reads operands in their places if the branch taken does. -/
theorem Script.places_ite {α : Type} {p : Prop} [Decidable p] {x y : Script α} {t : Token} :
    (if p then x else y).Places t ↔ (p → x.Places t) ∧ (¬p → y.Places t) := by
  split <;> simp_all

/-- No sign that joins operands begins an expression. -/
theorem Kind.not_mem_joins_of_exprStart {k : Kind} (h : k ∈ exprStart) : k ∉ joins := by
  have all : ∀ k ∈ exprStart, k ∉ joins := by decide
  exact all k h

/-- A chain goes on with an operand after an operator, which ends none. -/
theorem Script.places_chain {operators : List Operator} {consumed : Kind} {operand : Rule .expr}
    {tail : Expr → Rule .expr} {l : Expr} {t : Token}
    (ho : ∀ o ∈ operators, Kind.op o ∉ Kind.beforeBinary) (ht : ∀ e, (tail e).operand = false) :
    (Script.chain operators consumed operand tail l).Places t := by
  have kinds : ∀ k ∈ operators.map Kind.op, k ∉ Kind.beforeBinary := List.forall_mem_map.2 ho
  simp only [chain, at?, expect, parse, bind_eq_bind, bind, pure_eq, Places, places_ite,
    decide_eq_true_eq, ht]
  refine ⟨fun hk _ u fits => ?_, fun _ => trivial⟩
  exact ⟨fun _ => fits (kinds _ hk), fun _ _ => ⟨nofun, fun _ _ => trivial⟩⟩

/-- Every rule that reads an operand where none of the joining signs is next reads all its operands
where none of them is. -/
theorem Rule.places_script {c : Category} (rule : Rule c) {t : Token}
    (ht : rule.operand = true → t.kind ∉ Kind.joins) : rule.script.Places t := by
  cases rule with
  | entry e => cases e <;> simp_all [script, Script.Places, operand]
  | exprTail | termTail | disjunctionTail | conjunctionTail | comparisonTail =>
    exact Script.places_chain (by decide) fun _ => rfl
  | statement =>
    have name : Kind.ident ∉ Kind.joins := by decide
    simp +contextual [script, Script.Places, Script.places_ite, operand, Fault.placed_reject,
      Kind.beforeBinary, name, Kind.not_mem_joins_of_exprStart]
  | power =>
    have sign : Kind.op .pow ∉ Kind.joins := by decide
    simp +contextual [script, Script.Places, Script.places_ite, operand, ht rfl, sign]
  | factor =>
    have signs : ∀ k, k = Kind.op .pos ∨ k = .op .neg → k ≠ .op .rparen := by
      rintro k (rfl | rfl) <;> decide
    simp +contextual [script, Script.Places, Script.places_ite, operand, Fault.placed_reject,
      Kind.beforeBinary, ht rfl, signs]
  | clause | expr | term | items | named | disjunction | conjunction | negation | comparison
  | comparand =>
    simp +contextual [script, Script.Places, Script.places_ite, operand, Fault.placed_reject,
      Kind.beforeBinary, ht rfl]
  | _ =>
    simp +contextual [script, Script.Places, Script.places_ite, operand, Fault.placed_reject,
      Kind.beforeBinary]

/-- A scan that makes no token has seen no sign. -/
theorem Fault.OfScan.placed {e : Fault} (h : e.OfScan) : e.Placed := by
  rintro _ _ _ _ rfl
  generalize hx : Fault.atPosition _ _ = x at h
  cases h with
  | numeral reason => cases reason <;> cases hx
  | unterminatedString | unexpectedCharacter => cases hx

section
variable {l l' : Lexer} {e : Fault}

/-- How a script fails, given how the rules do that it follows. -/
theorem Script.placed_of_run {follow : {c : Category} → Rule c → EStateM Fault Lexer c.Tree}
    (hf : ∀ {c : Category} (rule : Rule c) {l : Lexer} {t e l'}, l.Plain → current? l = some t →
      (rule.operand = true → t.kind ∉ Kind.joins) → follow rule l = .error e l' → e.Placed)
    (hp : ∀ {c : Category} (rule : Rule c) l a l', follow rule l = .ok a l' →
      rule.Parses l a l')
    {α : Type} {script : Script α} {t : Token} (hl : l.Plain) (ht : current? l = some t)
    (places : script.Places t) (h : script.run follow l = .error e l') : e.Placed := by
  induction script generalizing l t with
  | done a => cases h
  | fail d =>
    cases h
    exact places
  | current next ih =>
    rw [run_current ht] at h
    exact ih t hl ht places h
  | ahead next ih =>
    cases ha : advance l with
    | error e₁ l₁ =>
      rw [run_ahead_error ha] at h
      cases h
      exact (Scan.ofScan_of_token (Lexer.advance_eq_error ha)).placed
    | ok u l₁ =>
      rw [run_ahead ha] at h
      exact ih u hl ht (places u) h
  | eat kind next ih =>
    by_cases hk : t.hasKind kind = true
    · cases ha : advance l with
      | error e₁ l₁ =>
        rw [run_eat_error ht hk ha] at h
        cases h
        exact (Scan.ofScan_of_token (Lexer.advance_eq_error ha)).placed
      | ok u l₁ =>
        rw [run_eat_advance ht hk ha] at h
        have consumed : Consumes kind l t l₁ := ⟨ht, hk, u, ha⟩
        have here : current? l₁ = some u := current_advance (Option.isSome_of_mem ht) ha
        refine ih t (hl.advance ha) here (places ?_ u fun last => ?_) h
        · exact or_iff_not_imp_left.2 (consumed.kind_eq hl)
        · exact (consumed.notAt_joins hl last).not_mem here
    · rw [run_eat_mismatch ht hk] at h
      cases h
      nofun
  | follow rule next ih =>
    cases hc : follow rule l with
    | error e₁ l₁ =>
      rw [run_follow_error hc] at h
      cases h
      exact hf rule hl ht places.1 hc
    | ok a l₁ =>
      rw [run_follow_ok hc] at h
      have parsed := hp rule l a l₁ hc
      obtain ⟨u, hu⟩ := exists_current (parsed.onward (Option.isSome_of_mem ht)).1
      exact ih a (hl.reaches parsed.reaches) hu (places.2 a u) h

/-- A run of a rule that begins where its operands may does not fail at a sign that joins
operands, unless a statement was to begin there. -/
theorem Rule.placed_of_run {c : Category} {rule : Rule c} {n : Nat} {t : Token} (hl : l.Plain)
    (ht : current? l = some t) (hk : rule.operand = true → t.kind ∉ Kind.joins)
    (h : rule.run n l = .error e l') : e.Placed := by
  induction n generalizing c l t e l' with
  | zero =>
    cases h
    nofun
  | succ n ih =>
    exact Script.placed_of_run (fun _ _ _ _ _ hl ht hk h => ih hl ht hk h)
      (fun _ _ _ _ h => ⟨n, h⟩) hl ht (rule.places_script hk) h

/-- The lexer that a text is parsed with is plain. -/
theorem Lexer.plain_ofSource {r : Radix} {source : String} : (ofSource .standard r source).Plain :=
  ⟨rfl, fun _ h => nomatch h⟩

/-- A parse of a text does not fail at a sign that joins operands, unless a statement was to begin
there. -/
theorem placed_of_parse {r : Radix} {entry : Entry} {source : String}
    (h : parse .standard r entry source = .error e) : e.Placed := by
  cases ha : advance (Lexer.ofSource .standard r source) with
  | error e' l =>
    rw [parse_eq_outcome, bind_eq, ha] at h
    cases h
    exact (Scan.ofScan_of_token (Lexer.advance_eq_error ha)).placed
  | ok t l =>
    rw [parse_of_advance ha, outcome_eq_error_iff] at h
    obtain ⟨l', h⟩ := h
    rw [Rule.parse_eq] at h
    have fits := Lexer.signFits_of_advance rfl ha
    have here : current? l = some t := by
      obtain ⟨-, rfl⟩ := Lexer.advance_eq_ok ha
      rfl
    refine Rule.placed_of_run (Lexer.plain_ofSource.advance ha) here (fun _ => ?_) h
    simpa [Kind.joins, Operator.additive] using fits.2 nofun

end

/-! ## The signs in a tree -/

/-- The kind of a piece. -/
def Piece.kind : Piece → Kind
  | token t => t.kind
  | word w => w.kind

/-- The token of a piece has its kind. -/
theorem Piece.Is.kind_eq {p : Piece} {t : Token} (h : p.Is t) : t.kind = p.kind := by
  cases p with
  | token u =>
    cases h
    rfl
  | word w => exact congrArg Word.kind h

/-- What stands among lists with commas between them is a comma or in one of the lists. -/
theorem mem_commas {p : Piece} {lists : List (List Piece)} (h : p ∈ commas lists) :
    p = Operator.comma.piece ∨ ∃ l ∈ lists, p ∈ l := by
  match lists with
  | [] => cases h
  | [x] =>
    rw [commas_singleton] at h
    exact .inr ⟨x, List.mem_singleton_self x, h⟩
  | x :: y :: xs =>
    rw [commas_cons_cons, List.mem_append, List.mem_cons] at h
    rcases h with h | h | h
    · exact .inr ⟨x, List.mem_cons_self, h⟩
    · exact .inl h
    · refine (mem_commas h).imp_right ?_
      rintro ⟨l, hl, h⟩
      exact ⟨l, List.mem_cons_of_mem x hl, h⟩

/-- The yield of arguments is that of each. -/
theorem yieldItems_eq (es : List Expr) : yieldItems es = es.map Expr.yield := by
  induction es with
  | nil => rfl
  | cons e es ih => rw [yieldItems, ih, List.map_cons]

/-- The yield of statements is that of one after another. -/
theorem yieldStatements_eq (as : List Statement) :
    yieldStatements as = as.flatMap Statement.yield := by
  induction as with
  | nil => rfl
  | cons a as ih => rw [yieldStatements, ih, List.flatMap_cons]

/-- The yield of further clauses is that of one after another, each with its keyword. -/
theorem yieldClauses_eq (cs : List Clause) :
    yieldClauses cs = cs.flatMap fun c => Keyword.elif.piece :: c.yield := by
  induction cs with
  | nil => rfl
  | cons c cs ih => rw [yieldClauses, ih, List.flatMap_cons, List.cons_append]

/-- The yield of functions is that of one after another. -/
theorem yieldFunctions_eq (fs : List Function) :
    yieldFunctions fs = fs.flatMap Function.yield := by
  induction fs with
  | nil => rfl
  | cons f fs ih => rw [yieldFunctions, ih, List.flatMap_cons]

namespace Piece
variable {p : Piece}

/-- Whether the piece is a sign. -/
def IsSign (p : Piece) : Prop := p.kind ∈ Kind.joins ++ Kind.signs

/-- A sign is no name. -/
theorem IsSign.ne_name (hp : p.IsSign) {t : Token} (ht : t.kind = .ident) : p ≠ .token t := by
  rintro rfl
  rw [IsSign, kind, ht] at hp
  exact absurd hp (by decide)

/-- A sign is no keyword. -/
theorem IsSign.ne_keyword (hp : p.IsSign) (k : Keyword) : p ≠ k.piece := by
  rintro rfl
  simp [IsSign, Kind.joins, Operator.additive, Kind.signs, kind, Keyword.asWord] at hp

/-- A sign is no other operator. -/
theorem IsSign.ne_operator (hp : p.IsSign) {o : Operator}
    (ho : o ∉ [Operator.add, .sub, .pos, .neg]) : p ≠ o.piece := by
  rintro rfl
  simp only [List.mem_cons, List.not_mem_nil, or_false, not_or] at ho
  simp [IsSign, Kind.joins, Operator.additive, Kind.signs, kind, Operator.asWord, ho] at hp

end Piece

section
variable {p : Piece}

/-- A sign in the yield of an expression is its operator, or is in the yield of a child. -/
theorem Expr.sign_of_mem_yield {e : Expr} (hp : p.IsSign) (h : p ∈ e.yield) :
    (∃ op, e.op? = some op ∧ p = .token op) ∨ ∃ m ∈ (Node.expr e).children, p ∈ m.yield := by
  cases e with
  | leaf k v pos =>
    obtain ⟨kind, hk, rfl⟩ := List.mem_map.1 h
    have literals : ∀ kind ∈ k.kind?.toList, kind ∉ Kind.joins ++ Kind.signs := by
      cases k <;> decide
    exact absurd hp (literals kind hk)
  | call c pos => exact .inr ⟨_, List.mem_singleton_self _, h⟩
  | group e pos =>
    have opening := hp.ne_operator (o := .lparen) (by decide)
    have closing := hp.ne_operator (o := .rparen) (by decide)
    have inner : p ∈ e.yield := by simpa [yield, opening, closing] using h
    exact .inr ⟨_, List.mem_singleton_self _, inner⟩
  | binary op l r pos =>
    simp only [yield, List.mem_append, List.mem_cons] at h
    rcases h with h | rfl | h
    · exact .inr ⟨.expr l, by simp [Node.children], h⟩
    · exact .inl ⟨op, rfl, rfl⟩
    · exact .inr ⟨.expr r, by simp [Node.children], h⟩
  | unary op e pos =>
    rcases List.mem_cons.1 h with rfl | h
    · exact .inl ⟨op, rfl, rfl⟩
    · exact .inr ⟨_, List.mem_singleton_self _, h⟩

/-- A sign in parentheses with a list between commas is in the yield of an item. -/
theorem exists_of_mem_listed {items : List (List Piece)} (hp : p.IsSign)
    (h : p ∈ Operator.lparen.piece :: commas items ++ [Operator.rparen.piece]) :
    ∃ l ∈ items, p ∈ l := by
  have opening := hp.ne_operator (o := .lparen) (by decide)
  have closing := hp.ne_operator (o := .rparen) (by decide)
  have listed : p ∈ commas items := by simpa [opening, closing] using h
  exact (mem_commas listed).resolve_left (hp.ne_operator (by decide))

/-- A sign in the yield of arguments is in that of one of them. -/
theorem Args.sign_of_mem_yield {a : Args} (hp : p.IsSign) (h : p ∈ a.yield) :
    ∃ m ∈ (Node.args a).children, p ∈ m.yield := by
  obtain ⟨es, pos⟩ := a
  obtain ⟨_, hm, hy⟩ := exists_of_mem_listed hp h
  rw [yieldItems_eq] at hm
  obtain ⟨e, he, rfl⟩ := List.mem_map.1 hm
  exact ⟨.expr e, List.mem_map_of_mem he, hy⟩

/-- There is no sign among the names of parameters. -/
theorem Params.sign_not_mem_yield {ps : Params} (hp : p.IsSign)
    (names : ∀ n ∈ ps.names, n.kind = .ident) : p ∉ ps.yield := by
  intro h
  obtain ⟨_, hm, hy⟩ := exists_of_mem_listed hp h
  obtain ⟨n, hn, rfl⟩ := List.mem_map.1 hm
  exact hp.ne_name (names n hn) (List.mem_singleton.1 hy)

/-- A sign in the yield of a branch is in one of its clauses, or after the `else`. -/
theorem Branch.sign_of_mem_yield {b : Branch} (hp : p.IsSign) (h : p ∈ b.yield) :
    ∃ m ∈ (Node.statement (.branch b)).children, p ∈ m.yield := by
  obtain ⟨c, cs, o, pos⟩ := b
  have parts : p ∈ c.yield ∨ p ∈ yieldClauses cs ∨ p ∈ yieldOtherwise o := by
    simpa [yield, hp.ne_keyword] using h
  rcases parts with h | h | h
  · exact ⟨.clause c, by simp [Node.children], h⟩
  · rw [yieldClauses_eq] at h
    obtain ⟨d, hd, hy⟩ := List.mem_flatMap.1 h
    have clause : p ∈ d.yield := (List.mem_cons.1 hy).resolve_left (hp.ne_keyword _)
    exact ⟨.clause d, by simp [Node.children, hd], clause⟩
  · cases o with
    | none => cases h
    | some a =>
      have last : p ∈ a.yield := (List.mem_cons.1 h).resolve_left (hp.ne_keyword _)
      exact ⟨.statement a, by simp [Node.children], last⟩

/-- A sign in the yield of a statement is in the yield of a child. -/
theorem Statement.sign_of_mem_yield {a : Statement} (hw : (Node.statement a).WellFormed)
    (hp : p.IsSign) (h : p ∈ a.yield) : ∃ m ∈ (Node.statement a).children, p ∈ m.yield := by
  cases a with
  | scope b =>
    obtain ⟨as, pos⟩ := b
    have opening := hp.ne_operator (o := .lbrace) (by decide)
    have closing := hp.ne_operator (o := .rbrace) (by decide)
    have statements : p ∈ yieldStatements as := by
      simpa [yield, Scope.yield, opening, closing] using h
    rw [yieldStatements_eq] at statements
    obtain ⟨a, ha, hy⟩ := List.mem_flatMap.1 statements
    exact ⟨.statement a, List.mem_map_of_mem ha, hy⟩
  | expr e pos => exact ⟨_, List.mem_singleton_self _, h⟩
  | assign t e pos =>
    have sign := hp.ne_operator (o := .assign) (by decide)
    have value : p ∈ e.yield := by simpa [yield, hp.ne_name hw.1, sign] using h
    exact ⟨_, List.mem_singleton_self _, value⟩
  | ret e pos =>
    cases e with
    | none => exact absurd (List.mem_singleton.1 h) (hp.ne_keyword _)
    | some e =>
      have value : p ∈ e.yield := (List.mem_cons.1 h).resolve_left (hp.ne_keyword _)
      exact ⟨_, List.mem_singleton_self _, value⟩
  | branch b => exact b.sign_of_mem_yield hp h
  | function f pos => exact ⟨_, List.mem_singleton_self _, h⟩
  | empty => cases h

/-- A sign in the yield of a node is that of an expression, or is in the yield of a child. -/
theorem Node.sign_of_mem_yield {n : Node} (hw : n.WellFormed) (hp : p.IsSign) (h : p ∈ n.yield) :
    (∃ e op, n = .expr e ∧ e.op? = some op ∧ p = .token op) ∨ ∃ m ∈ n.children, p ∈ m.yield := by
  cases n with
  | expr e =>
    refine (e.sign_of_mem_yield hp h).imp_left ?_
    rintro ⟨op, ho, rfl⟩
    exact ⟨e, op, rfl, ho, rfl⟩
  | call c =>
    obtain ⟨callee, args, pos⟩ := c
    have inner : p ∈ args.yield := (List.mem_cons.1 h).resolve_left (hp.ne_name hw.1)
    exact .inr ⟨_, List.mem_singleton_self _, inner⟩
  | args a => exact .inr (a.sign_of_mem_yield hp h)
  | params ps => exact absurd h (ps.sign_not_mem_yield hp hw)
  | statement a => exact .inr (a.sign_of_mem_yield hw hp h)
  | clause c =>
    obtain ⟨e, a, pos⟩ := c
    rcases List.mem_append.1 h with h | h
    · exact .inr ⟨.expr e, by simp [children], h⟩
    · exact .inr ⟨.statement a, by simp [children], h⟩
  | function f =>
    obtain ⟨callee, ps, b, pos⟩ := f
    have parts : p ∈ ps.yield ∨ p ∈ b.yield := by
      simpa [yield, Function.yield, hp.ne_keyword, hp.ne_name hw] using h
    rcases parts with h | h
    · exact .inr ⟨.params ps, by simp [children], h⟩
    · exact .inr ⟨.statement (.scope b), by simp [children], h⟩
  | program q =>
    rw [yield, yieldFunctions_eq] at h
    obtain ⟨f, hf, hy⟩ := List.mem_flatMap.1 h
    exact .inr ⟨.function f, List.mem_map_of_mem hf, hy⟩

/-- A sign in the yield of a tree is that of an expression in it. -/
theorem Node.exists_of_mem_yield {n : Node} (hw : n.Everywhere WellFormed) (hp : p.IsSign)
    (h : p ∈ n.yield) : ∃ e op, (Node.expr e).Within n ∧ e.op? = some op ∧ p = .token op := by
  induction n using Node.induction with
  | node n ih =>
    rcases sign_of_mem_yield (hw n .refl) hp h with ⟨e, op, rfl, ho, rfl⟩ | ⟨m, hm, hy⟩
    · exact ⟨e, op, .refl, ho, rfl⟩
    · obtain ⟨e, op, within, ho, hp⟩ := ih m hm (fun k hk => hw k (.child hm hk)) hy
      exact ⟨e, op, .child hm within, ho, hp⟩

end

/-- Of the tokens no sign is left out. -/
theorem Kept.exists_piece {ts : List Token} {ps : List Piece} {t : Token} (h : Kept ts ps)
    (ht : t ∈ ts) (hk : t.kind ∈ Kind.joins ++ Kind.signs) : ∃ p ∈ ps, p.Is t := by
  have apart : ∀ k ∈ Kind.joins ++ Kind.signs,
      k ≠ .eof ∧ k ≠ .op .lineEnd ∧ k ≠ .op .pow ∧ k ≠ .op .comma := by decide
  obtain ⟨eof, line, pow, comma⟩ := apart _ hk
  induction h with
  | ended he =>
    rw [List.mem_singleton.1 ht] at eof
    exact absurd he eof
  | keep hp _ ih =>
    rcases List.mem_cons.1 ht with rfl | ht
    · exact ⟨_, List.mem_cons_self, hp⟩
    · obtain ⟨p, hm, hi⟩ := ih ht
      exact ⟨p, List.mem_cons_of_mem _ hm, hi⟩
  | lineEnd hl _ ih =>
    refine ih ((List.mem_cons.1 ht).resolve_left ?_)
    rintro rfl
    exact line hl
  | power hl _ ih =>
    refine ih ((List.mem_cons.1 ht).resolve_left ?_)
    rintro rfl
    exact pow hl
  | comma hl _ _ ih =>
    refine ih ((List.mem_cons.1 ht).resolve_left ?_)
    rintro rfl
    exact comma hl

/-- An operator that is spelled as a sign joins two operands, or is the sign of one. -/
theorem Lexeme.sign {r : Radix} {previous : Option Kind} {after text : List Char} {t : Token}
    (h : Lexeme .standard r previous after t text) (ho : t.isOperator = true)
    (hv : t.value = .text "+" ∨ t.value = .text "-") : t.kind ∈ Kind.joins ++ Kind.signs := by
  cases h with
  | @op lexeme o start mem =>
    have spelled : ∀ e ∈ Operator.lexemes, String.ofList e.1 = "+" ∨ String.ofList e.1 = "-" →
        e.2 = .add ∨ e.2 = .sub := by decide
    have sign : o = .add ∨ o = .sub := spelled _ mem (hv.imp Value.text.inj Value.text.inj)
    show Kind.op (o.inContext previous) ∈ _
    unfold Operator.inContext
    rcases sign with rfl | rfl <;> split <;> decide
  | keyword _ _ hl =>
    obtain ⟨k, -, rfl⟩ := KeywordTable.exists_of_lookup_standard hl
    cases ho
  | number | truth | name | string => cases ho

/-! ## Texts -/

section
variable {r : Radix} {entry : Entry} {source : String}

/-- The lexeme of a token that is not the end of the input. -/
theorem exists_lexeme_of_tokenize {ts : List Token} {i : Nat} {t : Token}
    (tokens : tokenize .standard r source = .ok ts) (ht : ts[i]? = some t) (hk : t.kind ≠ .eof) :
    ∃ after text, Lexeme .standard r (kindBefore none ts i) after t text := by
  rw [tokenize_eq, outcome_eq_ok_iff] at tokens
  obtain ⟨l, tokens⟩ := tokens
  obtain ⟨start, stop, tiling⟩ :=
    Lexer.exists_tiling KeywordTable.noEnd_standard (Nat.zero_le _) tokens
  obtain ⟨u, hu, eof, -⟩ := tiling.ends
  have lt := (List.getElem?_eq_some_iff.1 ht).1
  by_cases last : i + 1 = ts.length
  · rw [List.getLast?_eq_getElem?, ← last, Nat.add_sub_cancel, ht] at hu
    cases hu
    exact absurd eof hk
  · exact ⟨_, _, (tiling.lexeme i t (by omega) ht).2.2⟩

/-- In the tree that a text is parsed as every sign of the text is the operator of a node: of a node
with two operands if the token before it is the last one of an operand, and of a node with one
operand otherwise. -/
theorem exists_op_of_parse {node : Node} (h : parse .standard r entry source = .ok node) :
    ∃ ts, tokenize .standard r source = .ok ts ∧ ∀ (i : Nat) t, ts[i]? = some t →
      t.isOperator = true → t.value = .text "+" ∨ t.value = .text "-" →
        (EndsOperand (kindBefore none ts i) →
          ∃ l r pos, (Node.expr (.binary t l r pos)).Within node) ∧
        (¬EndsOperand (kindBefore none ts i) →
          ∃ e pos, (Node.expr (.unary t e pos)).Within node) := by
  obtain ⟨ts, s, u, tokens, covered, rest, hu⟩ := exists_covered_of_parse h
  obtain ⟨_, _, _, _, derives⟩ := exists_derives_of_parse h
  have wellFormed : node.Everywhere Node.WellFormed := derives.forms
  refine ⟨ts, tokens, fun i t ht ho hv => ?_⟩
  have eof : t.kind ≠ .eof := by
    intro he
    rw [Token.isOperator, he] at ho
    cases ho
  obtain ⟨after, text, lexeme⟩ := exists_lexeme_of_tokenize tokens ht eof
  have sign := lexeme.sign ho hv
  have fits := lexeme.signFits
  -- The sign is a piece of the yield, and so the operator of a node. Which node it can be is said
  -- by its kind, and its kind by the token before it.
  obtain ⟨p, hp, his⟩ :=
    (covered.kept_of_end rest hu).exists_piece (List.mem_of_getElem? ht) sign
  have isSign : p.IsSign := by
    rw [Piece.IsSign, ← his.kind_eq]
    exact sign
  obtain ⟨e, op, within, hop, rfl⟩ := Node.exists_of_mem_yield wellFormed isSign hp
  obtain rfl : op = t := his
  have operator := wellFormed _ within
  cases e with
  | leaf | call | group => cases hop
  | binary op' l r pos =>
    cases hop
    have apart : ∀ k ∈ Operator.binary.map Kind.op, k ∉ Kind.signs := by decide
    exact ⟨fun _ => ⟨l, r, pos, within⟩, fun he =>
      absurd (fits.mem_signs he sign) (apart _ operator)⟩
  | unary op' e pos =>
    cases hop
    have apart : ∀ k ∈ Operator.unary.map Kind.op, k ∉ Kind.joins := by decide
    exact ⟨fun he => absurd (fits.mem_joins he sign) (apart _ operator), fun _ =>
      ⟨e, pos, within⟩⟩

/-- The signs of a text fit the grammar. In a tree every sign is the operator of a node, with two
operands if it comes after the end of an operand, and otherwise with one. A sign that joins operands
is rejected only where a statement was to begin, and after an operand that has been read no sign of
an operand is next. -/
theorem parse_signs :
    (∀ node, parse .standard r entry source = .ok node →
      ∃ ts, tokenize .standard r source = .ok ts ∧ ∀ (i : Nat) t, ts[i]? = some t →
        t.isOperator = true → t.value = .text "+" ∨ t.value = .text "-" →
          (EndsOperand (kindBefore none ts i) →
            ∃ l r pos, (Node.expr (.binary t l r pos)).Within node) ∧
          (¬EndsOperand (kindBefore none ts i) →
            ∃ e pos, (Node.expr (.unary t e pos)).Within node)) ∧
    (∀ rule found expected pos,
      parse .standard r entry source = .error (.atPosition (.grammar rule found expected) pos) →
        found ∈ [Kind.op .add, .op .sub] → rule = "statement") ∧
    ∀ l e l', Lexer.Reaches (Lexer.ofSource .standard r source) l →
      Rule.factor.Derives l e l' → NotAt [.op .pos, .op .neg] l' := by
  refine ⟨fun _ h => exists_op_of_parse h, ?_, ?_⟩
  · intro rule found expected pos h
    exact placed_of_parse h rule found expected pos rfl
  · intro l e l' reaches derives
    exact derives.completes (Lexer.plain_ofSource.reaches reaches)

end

/-- Two signs in a sum, a sign after a condition, and the end of an operand. -/
theorem parse_signs_sum :
    (∃ node, parse .standard .decimal .expression "-a+b" = .ok node ∧
      ∃ ts, tokenize .standard .decimal "-a+b" = .ok ts ∧ ∀ (i : Nat) t, ts[i]? = some t →
        t.isOperator = true → t.value = .text "+" ∨ t.value = .text "-" →
          (EndsOperand (kindBefore none ts i) →
            ∃ l r pos, (Node.expr (.binary t l r pos)).Within node) ∧
          (¬EndsOperand (kindBefore none ts i) →
            ∃ e pos, (Node.expr (.unary t e pos)).Within node)) ∧
    (∃ rule, parse .standard .decimal .statement "if true + a" =
        .error (.atPosition (.grammar rule (.op .add) (some "statement")) 8) ∧
      rule = "statement") ∧
    ∃ l e l', Lexer.Reaches (Lexer.ofSource .standard .decimal "-a+b") l ∧
      Rule.factor.Derives l e l' ∧ NotAt [.op .pos, .op .neg] l' := by
  have tokens : tokenize .standard .decimal "-a+b" = .ok [⟨.op .neg, .text "-", ⟨0, 1, 1⟩⟩,
      ⟨.ident, .text "a", ⟨1, 1, 2⟩⟩, ⟨.op .add, .text "+", ⟨2, 1, 3⟩⟩,
      ⟨.ident, .text "b", ⟨3, 1, 4⟩⟩, ⟨.eof, .text "EOF", ⟨4, 1, 5⟩⟩] := by decide +kernel
  have tokens' : tokenize .standard .decimal "if true + a" =
      .ok [⟨.keyword .if_, .text "if", ⟨0, 1, 1⟩⟩, ⟨.bool, .bool true, ⟨3, 1, 4⟩⟩,
        ⟨.op .add, .text "+", ⟨8, 1, 9⟩⟩, ⟨.ident, .text "a", ⟨10, 1, 11⟩⟩,
        ⟨.eof, .text "EOF", ⟨11, 1, 12⟩⟩] := by decide +kernel
  have parsed : parse .standard .decimal .expression "-a+b" = .ok (.expr
      (.binary ⟨.op .add, .text "+", ⟨2, 1, 3⟩⟩
        (.unary ⟨.op .neg, .text "-", ⟨0, 1, 1⟩⟩ (.leaf .symbol (.text "a") 1) 0)
        (.leaf .symbol (.text "b") 3) 0)) :=
    (parse_eq_parseTokens KeywordTable.noEnd_standard tokens).trans rfl
  have failed : parse .standard .decimal .statement "if true + a" =
      .error (.atPosition (.grammar "statement" (.op .add) (some "statement")) 8) :=
    (parse_eq_parseTokens KeywordTable.noEnd_standard tokens').trans rfl
  obtain ⟨t, l, l', ha, derives⟩ := exists_derives_of_parse parsed
  have reaches : Lexer.Reaches (Lexer.ofSource .standard .decimal "-a+b") l := .single ⟨t, ha⟩
  obtain ⟨e, l₁, operand⟩ : ∃ e l₁, Rule.factor.Derives l e l₁ := by
    cases derives with
    | wholeExpression sum _ =>
      cases sum with
      | sum product _ =>
        cases product with
        | product power _ =>
          cases power with
          | base h _ _ | power h _ _ _ => exact ⟨_, _, h⟩
  have signs := @parse_signs .decimal .expression "-a+b"
  exact ⟨⟨_, parsed, signs.1 _ parsed⟩,
    ⟨_, failed, parse_signs.2.1 _ _ _ _ failed (by decide)⟩,
    l, e, l₁, reaches, operand, signs.2.2 l e l₁ reaches operand⟩

end Quill
