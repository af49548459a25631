import Quill.Proofs.Feed
import Quill.Proofs.Parts

/-!
# Missing operands

Where the input ends before an operand, a placeholder stands for it. A parse that succeeds has read
at most one of them, as the last leaf of its tree, and none in what has to be closed or has
something after it (`parse_missing`): parentheses, blocks, functions and conditions. So an
expression in a program that the input breaks off is an error.

A rule that comes to a placeholder leaves the reader at the end of the input (`Trails`). From there
nothing that takes a token is read: the rules for lists have no further items, terminators are none,
and all other rules fail.
-/

namespace Quill

open TokenReader

/-! ## Placeholders -/

/-- Whether the node is the placeholder for an operand. -/
def Node.isMissing : Node → Bool
  | .expr (.leaf .none _ _) => true
  | _ => false

/-- Whether no operand is missing in the tree. -/
def Node.Whole (n : Node) : Prop := n.Everywhere fun m => m.isMissing = false

/-- Whether no operand is missing in those parts of the node that have something after them: what
stands in parentheses, a block, a function, and a condition. -/
def Node.Sealed : Node → Prop
  | .expr (.group e _) => (Node.expr e).Whole
  | .args a => (Node.args a).Whole
  | .statement (.scope b) => (Node.statement (.scope b)).Whole
  | .function f => (Node.function f).Whole
  | .clause c => (Node.expr c.condition).Whole
  | _ => True

/-- A node is whole if it is no placeholder and its parts are whole. -/
theorem Node.whole_iff {n : Node} : n.Whole ↔ n.isMissing = false ∧ n.children.Forall Whole :=
  everywhere_iff

/-- The parts of a whole node are whole. -/
theorem Node.Whole.child {n m : Node} (h : n.Whole) (hm : m ∈ n.children) : m.Whole :=
  List.forall_iff_forall_mem.1 (whole_iff.1 h).2 m hm

/-- A function is whole if its body is. -/
theorem Node.whole_function {f : Function} (h : (Node.statement (.scope f.body)).Whole) :
    (Node.function f).Whole :=
  whole_iff.2 ⟨rfl, whole_iff.2 ⟨rfl, trivial⟩, h⟩

/-- A placeholder has no children. -/
theorem Node.isMissing_eq_false {n : Node} (h : n.children ≠ []) : n.isMissing = false := by
  cases n with
  | expr e =>
    cases e with
    | leaf => exact absurd rfl h
    | _ => rfl
  | _ => rfl

/-- A tree is whole if none of its leaves is missing. -/
theorem Node.whole_iff_leaves {n : Node} : n.Whole ↔ ∀ m ∈ n.leaves, m.isMissing = false := by
  induction n using Node.induction with
  | node n ih =>
    rw [whole_iff, List.forall_iff_forall_mem]
    by_cases h : n.children = []
    · simp [leaves_of_nil h, h]
    · simp only [leaves_of_ne_nil h, isMissing_eq_false h, true_and, List.mem_flatMap]
      constructor
      · rintro below m ⟨c, hc, hm⟩
        exact (ih c hc).1 (below c hc) m hm
      · exact fun all c hc => (ih c hc).2 fun m hm => all m ⟨c, hc, hm⟩

section
variable {σ : Type} [TokenReader σ] {s s₁ s' : σ}

/-! ## At the end of the input -/

/-- The end of the input is the current token. -/
def AtEnd (s : σ) : Prop := ∃ t, current? s = some t ∧ t.kind = .eof

/-- Where another token is current the end has not been reached. -/
theorem not_atEnd_of_current {t : Token} (ht : current? s = some t) (hk : t.kind ≠ .eof) :
    ¬AtEnd s := by
  rintro ⟨u, hu, he⟩
  cases ht.symm.trans hu
  exact hk he

/-- Nothing but the end is consumed at the end. -/
theorem Consumes.not_atEnd {kind : Kind} {t : Token} (h : Consumes kind s t s')
    (hk : kind ≠ .eof) : ¬AtEnd s :=
  not_atEnd_of_current h.current fun ht => hk (Token.eq_eof_of_hasKind ht h.2.1)

/-- To skip terminators at the end of the input is to stay there. -/
theorem atEnd_of_terminators (h : Rule.terminators.Derives s () s') (he : AtEnd s) : AtEnd s' := by
  cases h with
  | noTerminators => exact he
  | terminators _ hc _ => exact absurd he (hc.not_atEnd nofun)

/-- To end a statement at the end of the input is to stay there. -/
theorem atEnd_of_terminates (h : Terminates s s') (he : AtEnd s) : AtEnd s' := by
  rcases h with ⟨t, -, ⟨-, hc⟩ | ⟨-, rfl⟩⟩
  · exact absurd he (hc.not_atEnd nofun)
  · exact he

/-- There are no functions after the end. -/
theorem atEnd_of_functions {fs : List Function} (h : Rule.functions.Derives s fs s')
    (he : AtEnd s) : fs.map Node.function = [] ∧ AtEnd s' := by
  cases h with
  | noFunctions => exact ⟨rfl, he⟩
  | functions ht hk _ _ _ => exact absurd he (not_atEnd_of_current ht hk)

/-- There are no statements after the end. -/
theorem atEnd_of_statements {as : List Statement} (h : Rule.statements.Derives s as s')
    (he : AtEnd s) : as.map Node.statement = [] ∧ AtEnd s' := by
  cases h with
  | noStatements => exact ⟨rfl, he⟩
  | statements ht hk _ _ _ =>
    exact absurd he (not_atEnd_of_current ht fun hkt => hk (.inr hkt))

/-- There are no clauses after the end. -/
theorem atEnd_of_clauses {cs : List Clause} (h : Rule.clauses.Derives s cs s')
    (he : AtEnd s) : cs.map Node.clause = [] ∧ AtEnd s' := by
  cases h with
  | noClauses => exact ⟨rfl, he⟩
  | clauses _ hc _ _ _ => exact absurd he (hc.not_atEnd nofun)

/-- A statement takes a token. -/
theorem not_atEnd_of_statement {a : Statement} (h : Rule.statement.Derives s a s') :
    ¬AtEnd s := by
  cases h with
  | block ht hk | byName ht hk | byCondition ht hk | byReturn ht hk | byFunction ht hk =>
    exact not_atEnd_of_current ht (by rw [hk]; nofun)
  | byValue ht hk =>
    refine not_atEnd_of_current ht fun he => ?_
    rw [he] at hk
    exact absurd hk (by decide)
  | empty _ hc => exact hc.not_atEnd nofun

/-- Arguments take a token. -/
theorem not_atEnd_of_args {pos : Int} {as : Args} (h : (Rule.args pos).Derives s as s') :
    ¬AtEnd s := by
  cases h with
  | args ho => exact ho.not_atEnd nofun

/-- A chain of operators is finished. -/
def Rule.Finished : {c : Category} → Rule c → σ → c.Tree → σ → Prop
  | _, exprTail l, s, e, s' | _, termTail l, s, e, s' | _, disjunctionTail l, s, e, s'
  | _, conjunctionTail l, s, e, s' | _, comparisonTail l, s, e, s' => e = l ∧ s' = s
  | _, _, _, _, _ => True

/-- At the end of the input a chain has no further operand. -/
theorem Rule.Derives.finished {c : Category} {rule : Rule c} {a : c.Tree}
    (h : rule.Derives s a s') (hs : AtEnd s) : rule.Finished s a s' := by
  cases h with
  | sumEnd | productEnd | disjunctionEnd | conjunctionEnd | comparisonEnd => exact ⟨rfl, rfl⟩
  | sumTail _ hc | productTail _ hc | disjunctionTail _ hc | conjunctionTail _ hc
  | comparisonTail _ hc => exact absurd hs (hc.not_atEnd nofun)
  | _ => trivial

/-! ## What trails -/

/-- Of the leaves of the nodes only the last one can be missing, and then the end of the input has
been reached. -/
structure Trails (ns : List Node) (s : σ) : Prop where
  before : ∀ m ∈ (ns.flatMap Node.leaves).dropLast, m.isMissing = false
  atEnd : ∀ m ∈ ns.flatMap Node.leaves, m.isMissing = true → AtEnd s
  closed : ns.Forall (·.Everywhere Node.Sealed)

namespace Trails
variable {ns ms : List Node} {n : Node}

/-- Where there are no nodes nothing trails. -/
theorem nil : Trails [] s where
  before _ h := absurd h List.not_mem_nil
  atEnd _ h := absurd h List.not_mem_nil
  closed := trivial

/-- Where the input has not ended, no operand is missing. -/
theorem whole (h : Trails ns s) (hs : ¬AtEnd s) : ns.Forall Node.Whole := by
  rw [List.forall_iff_forall_mem]
  intro n hn
  rw [Node.whole_iff_leaves]
  intro m hm
  rw [← Bool.not_eq_true]
  exact fun missing => hs (h.atEnd m (List.mem_flatMap.2 ⟨n, hn, hm⟩) missing)

/-- Nodes that are whole may trail at any place. -/
theorem of_whole (h : ns.Forall Node.Whole) (closed : ns.Forall (·.Everywhere Node.Sealed)) :
    Trails ns s := by
  have present : ∀ m ∈ ns.flatMap Node.leaves, m.isMissing = false := by
    intro m hm
    obtain ⟨n, hn, hm⟩ := List.mem_flatMap.1 hm
    exact Node.whole_iff_leaves.1 (List.forall_iff_forall_mem.1 h n hn) m hm
  refine ⟨fun m hm => present m (List.dropLast_subset _ hm), fun m hm missing => ?_, closed⟩
  rw [present m hm] at missing
  cases missing

/-- Tokens that leave the reader at the end if it has been there may be consumed. -/
theorem mono (h : Trails ns s) (hs : AtEnd s → AtEnd s') : Trails ns s' :=
  ⟨h.before, fun m hm missing => hs (h.atEnd m hm missing), h.closed⟩

/-- What is read after nodes is nothing if the input has ended. -/
theorem append (h : Trails ns s₁) (h' : Trails ms s') (stuck : AtEnd s₁ → ms = [] ∧ AtEnd s') :
    Trails (ns ++ ms) s' := by
  by_cases hs : AtEnd s₁
  · obtain ⟨rfl, hs'⟩ := stuck hs
    rw [List.append_nil]
    exact h.mono fun _ => hs'
  have present : ∀ m ∈ ns.flatMap Node.leaves, m.isMissing = false := fun m hm =>
    Bool.eq_false_iff.2 fun missing => hs (h.atEnd m hm missing)
  refine ⟨fun m hm => ?_, fun m hm missing => ?_, List.forall_append .. |>.2 ⟨h.closed, h'.closed⟩⟩
  · rw [List.flatMap_append, List.dropLast_append] at hm
    split at hm
    · exact h.before m hm
    · rcases List.mem_append.1 hm with hm | hm
      · exact present m hm
      · exact h'.before m hm
  · rw [List.flatMap_append] at hm
    rcases List.mem_append.1 hm with hm | hm
    · rw [present m hm] at missing
      cases missing
    · exact h'.atEnd m hm missing

/-- A node of what has been read. -/
theorem node (h : Trails n.children s) (here : n.Sealed) (hn : n.isMissing = false) :
    Trails [n] s := by
  have closed : n.Everywhere Node.Sealed := Node.everywhere_iff.2 ⟨here, h.closed⟩
  have single : [n].flatMap Node.leaves = n.leaves := List.flatMap_singleton ..
  by_cases hc : n.children = []
  · have whole : n.Whole := Node.whole_iff.2 ⟨hn, by rw [hc]; trivial⟩
    exact of_whole whole closed
  · rw [Node.leaves_of_ne_nil hc] at single
    exact ⟨single ▸ h.before, single ▸ h.atEnd, closed⟩

/-- The placeholder is read at the end. -/
theorem missing {v : Value} {pos : Int} (hs : AtEnd s) :
    Trails [.expr (.leaf .none v pos)] s := by
  have leaves : [Node.expr (.leaf .none v pos)].flatMap Node.leaves =
      [.expr (.leaf .none v pos)] := by
    rw [List.flatMap_singleton, Node.leaves_of_nil rfl]
  refine ⟨?_, fun _ _ _ => hs, Node.everywhere_iff.2 ⟨trivial, trivial⟩⟩
  rw [leaves]
  exact fun m hm => absurd hm List.not_mem_nil

end Trails

/-! ## What rules come to -/

/-- What a rule comes to trails off at the end of the input, where the tree that the rule of a chain
is given does. -/
def Rule.TrailsOff : {c : Category} → Rule c → σ → c.Tree → σ → Prop
  | _, entry _, _, n, _ => ∃ s : σ, Trails [n] s
  | _, exprTail l, s, e, s' | _, termTail l, s, e, s' | _, disjunctionTail l, s, e, s'
  | _, conjunctionTail l, s, e, s' | _, comparisonTail l, s, e, s' =>
    Trails [.expr l] s → Trails [.expr e] s'
  | c, _, _, a, s' => Trails (c.nodes a) s'

/-- Two operands that are joined trail off as the right one does. -/
theorem Trails.chain {t : Token} {kind : Kind} {l r : Expr} {pos : Int} {s₂ : σ}
    (h : Trails [.expr l] s) (hc : Consumes kind s t s₁) (hk : kind ≠ .eof)
    (hr : Trails [.expr r] s₂) : Trails [.expr (.binary t l r pos)] s₂ := by
  refine .node ?_ trivial rfl
  exact h.append hr fun he => absurd he (hc.not_atEnd hk)

/-- Every rule trails off. -/
theorem Rule.Derives.trailsOff {c : Category} {rule : Rule c} {s s' : σ} {a : c.Tree}
    (h : rule.Derives s a s') : rule.TrailsOff s a s' := by
  induction h with
  | wholeProgram _ ih | wholeExpression _ _ ih | wholeCondition _ _ ih
  | wholeStatement _ _ ih => exact ⟨_, ih⟩
  | noTerminators | terminators | end_ | noFunctions | noNames | lastName | names
  | noStatements | noClauses | noItems => exact .nil
  | program _ _ _ hx hfs _ ihf _ ihfs =>
    have first := ihf.mono (atEnd_of_terminators hx)
    refine Trails.node ?_ trivial rfl
    exact first.append ihfs (atEnd_of_functions hfs)
  | functions _ _ _ hx hfs ihf _ ihfs =>
    have first := ihf.mono (atEnd_of_terminators hx)
    exact first.append ihfs (atEnd_of_functions hfs)
  | function _ _ _ _ ihp ihb =>
    have body : Node.Whole _ := ihb.closed _ .refl
    refine Trails.of_whole (Node.whole_function body) ?_
    exact Node.everywhere_iff.2 ⟨Node.whole_function body, ihp.closed, ihb.closed⟩
  | params => exact Trails.node .nil trivial rfl
  | scope _ _ _ hc _ ih =>
    have inner := ih.whole (hc.not_atEnd nofun)
    exact Trails.node (.of_whole inner ih.closed) (Node.whole_iff.2 ⟨rfl, inner⟩) rfl
  | statements _ _ _ hx has iha _ ihas =>
    have first := iha.mono (atEnd_of_terminators hx)
    exact first.append ihas (atEnd_of_statements has)
  | block _ _ _ ih | byName _ _ _ ih | byCondition _ _ _ ih | byReturn _ _ _ ih
  | name _ _ _ ih | positive _ _ _ ih | exponent _ _ _ ih | base _ _ _ ih
  | value _ _ _ _ _ ih | lastItem _ _ _ _ _ ih => exact ih
  | byValue _ _ _ _ ht ih | expr _ _ _ _ ht ih | assign _ _ _ _ _ ht ih | ret _ _ _ _ ht ih =>
    refine Trails.node ?_ trivial rfl
    exact ih.mono (atEnd_of_terminates ht)
  | byFunction _ _ _ ih | byCall _ _ _ ih | sign _ _ _ ih | negation _ _ _ ih
  | opposite _ _ _ ih | call _ _ _ ih => exact Trails.node ih trivial rfl
  | empty | retNone => exact Trails.node .nil trivial rfl
  | branchElse _ _ hx hcs _ he _ ihc _ ihcs iha =>
    have first := ihc.mono (atEnd_of_terminators hx)
    have clauses := first.append ihcs (atEnd_of_clauses hcs)
    refine Trails.node ?_ trivial rfl
    exact clauses.append iha fun h => absurd h (he.not_atEnd nofun)
  | branch _ _ hx hcs _ _ ihc _ ihcs =>
    have first := ihc.mono (atEnd_of_terminators hx)
    have clauses := first.append ihcs (atEnd_of_clauses hcs)
    refine Trails.node ?_ trivial rfl
    exact clauses.append .nil fun h => ⟨rfl, h⟩
  | clauses _ _ _ hx hcs ihc _ ihcs =>
    have first := ihc.mono (atEnd_of_terminators hx)
    exact first.append ihcs (atEnd_of_clauses hcs)
  | clause _ ha ihe iha =>
    have open_ := not_atEnd_of_statement ha
    refine Trails.node ?_ (ihe.whole open_) rfl
    exact ihe.append iha fun h => absurd h open_
  | sum _ _ ihl iht | product _ _ ihl iht | disjunction _ _ ihl iht | conjunction _ _ ihl iht
  | comparison _ _ ihl iht => exact iht ihl
  | sumEnd | productEnd | disjunctionEnd | conjunctionEnd | comparisonEnd => exact id
  | sumTail _ hc _ _ ihr iht | productTail _ hc _ _ ihr iht | disjunctionTail _ hc _ _ ihr iht
  | conjunctionTail _ hc _ _ ihr iht | comparisonTail _ hc _ _ ihr iht =>
    exact fun hl => iht (hl.chain hc nofun ihr)
  | power _ ht hk _ ihl ihr =>
    refine Trails.node ?_ trivial rfl
    exact ihl.append ihr fun h => absurd h (not_atEnd_of_current ht (by rw [hk]; nofun))
  | number | string | bool | symbol | truth => exact Trails.node .nil trivial rfl
  | missing ht hk => exact .missing ⟨_, ht, hk⟩
  | group _ _ _ hc ih | condition _ _ _ hc ih =>
    have inner : Node.Whole _ := ih.whole (hc.not_atEnd nofun)
    exact Trails.node (Trails.of_whole inner ih.closed) inner rfl
  | args _ _ hc ih =>
    have items := ih.whole (hc.not_atEnd nofun)
    exact Trails.node (.of_whole items ih.closed) (Node.whole_iff.2 ⟨rfl, items⟩) rfl
  | items _ _ _ _ hc _ _ ihe ihes =>
    exact ihe.append ihes fun h => absurd h (hc.not_atEnd nofun)

end

/-! ## The trees of a text -/

/-- A program is made of functions. -/
theorem Node.whole_of_program {p : Program} (h : (Node.program p).Everywhere Sealed) :
    (Node.program p).Whole := by
  refine whole_iff.2 ⟨rfl, List.forall_iff_forall_mem.2 fun m hm => ?_⟩
  obtain ⟨f, -, rfl⟩ := List.mem_map.1 hm
  exact h _ (.child hm .refl)

/-- If only the last leaf can be missing, at most one is. -/
theorem Node.countP_isMissing_le {n : Node} (h : ∀ m ∈ n.leaves.dropLast, m.isMissing = false) :
    n.leaves.countP isMissing ≤ 1 := by
  have none : n.leaves.dropLast.countP isMissing = 0 :=
    List.countP_eq_zero.2 fun m hm => by simp [h m hm]
  cases hl : n.leaves.getLast? with
  | none =>
    rw [List.getLast?_eq_none_iff.1 hl]
    exact Nat.zero_le 1
  | some l =>
    rw [← List.dropLast_append_getLast? l hl, List.countP_append, none, Nat.zero_add]
    exact List.countP_le_length

/-- If only the last leaf can be missing, a part that is missing is that leaf. -/
theorem Node.getLast?_leaves_of_isMissing {n m : Node}
    (h : ∀ m ∈ n.leaves.dropLast, m.isMissing = false) (hm : m.Within n) (missing : m.isMissing) :
    n.leaves.getLast? = some m := by
  have childless : m.children = [] := by
    refine Decidable.byContradiction fun hc => ?_
    rw [isMissing_eq_false hc] at missing
    cases missing
  have leaf := hm.mem_leaves childless
  cases hl : n.leaves.getLast? with
  | none =>
    rw [List.getLast?_eq_none_iff.1 hl] at leaf
    cases leaf
  | some l =>
    rw [← List.dropLast_append_getLast? l hl] at leaf
    rcases List.mem_append.1 leaf with hi | hm
    · rw [h m hi] at missing
      cases missing
    · rw [List.mem_singleton.1 hm]

/-- At most one operand is missing in the tree of a text, and it is the last leaf. None is missing
in parentheses, in a block, in a function or in a condition, and so none in a program. -/
theorem parse_missing {keywords : KeywordTable} {r : Radix} {entry : Entry} {source : String}
    {node : Node} (h : parse keywords r entry source = .ok node) :
    node.leaves.countP Node.isMissing ≤ 1 ∧
      (∀ m, m.Within node → m.isMissing → node.leaves.getLast? = some m) ∧
      node.Everywhere Node.Sealed ∧ (entry = .program → node.Whole) := by
  obtain ⟨_, _, _, _, derives⟩ := exists_derives_of_parse h
  obtain ⟨s, before, -, closed⟩ := derives.trailsOff
  rw [List.flatMap_singleton] at before
  refine ⟨Node.countP_isMissing_le before, fun m hm missing =>
    Node.getLast?_leaves_of_isMissing before hm missing, closed, ?_⟩
  rintro rfl
  cases derives with
  | wholeProgram => exact Node.whole_of_program closed

/-- An operand is missing at the end of a statement after a condition. -/
theorem parse_missing_assign : ∃ node,
    parse .standard .decimal .statement "if a b = c +" = .ok node ∧
      node.leaves.countP Node.isMissing ≤ 1 ∧
      (∀ m, m.Within node → m.isMissing → node.leaves.getLast? = some m) ∧
      node.Everywhere Node.Sealed ∧ (Entry.statement = .program → node.Whole) := by
  have tokens : tokenize .standard .decimal "if a b = c +" =
      .ok [⟨.keyword .if_, .text "if", ⟨0, 1, 1⟩⟩, ⟨.ident, .text "a", ⟨3, 1, 4⟩⟩,
        ⟨.ident, .text "b", ⟨5, 1, 6⟩⟩, ⟨.op .assign, .text "=", ⟨7, 1, 8⟩⟩,
        ⟨.ident, .text "c", ⟨9, 1, 10⟩⟩, ⟨.op .add, .text "+", ⟨11, 1, 12⟩⟩,
        ⟨.eof, .text "EOF", ⟨12, 1, 13⟩⟩] := by decide +kernel
  have parsed : parse .standard .decimal .statement "if a b = c +" =
      .ok (.statement (.branch ⟨⟨.leaf .symbol (.text "a") 3,
        .assign ⟨.ident, .text "b", ⟨5, 1, 6⟩⟩ (.binary ⟨.op .add, .text "+", ⟨11, 1, 12⟩⟩
          (.leaf .symbol (.text "c") 9) (.leaf .none .absent 12) 9) 5, 0⟩, [], none, 0⟩)) :=
    (parse_eq_parseTokens KeywordTable.noEnd_standard tokens).trans rfl
  exact ⟨_, parsed, parse_missing parsed⟩

end Quill
