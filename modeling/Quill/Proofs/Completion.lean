import Quill.Proofs.Lookahead

/-!
# Completing a run

Where a run stops short of a token, whether it succeeds or fails there, what it has consumed can be
completed: some tokens can stand in place of that token with which the run succeeds
(`Rule.completable`).

Each rule has a text of its own that it accepts (`Rule.sample`), and kinds of token before which it
ends (`Rule.stops`). A script that has got to some place is completed by the kinds that it would ask
for from there on, and by the samples of the rules that it would follow (`Script.closing`). Whether
that does it is read off the scripts, at each place where they can be left (`Rule.closable_script`).
-/

namespace Quill

open TokenReader LawfulReader

/-! ## Samples -/

/-- Whether a lexer makes tokens of the kind that are not the end of the input. -/
def Kind.isLexical : Kind → Bool
  | op _ | keyword _ | number | string | bool | ident => true
  | anyOp | other | eof | custom _ => false

/-- A token of a kind. -/
def Kind.token (k : Kind) : Token := ⟨k, .absent, .nowhere⟩

@[simp] theorem Kind.kind_token (k : Kind) : k.token.kind = k := rfl

/-- Tokens with one of the kinds first, among which the end of the input is only last. -/
inductive Follows (stops : List Kind) : List Token → Prop
  | intro {t : Token} {rest : List Token} : t.kind ∈ stops → (t.kind = .eof → rest = []) →
      Follows stops (t :: rest)

namespace Rule

/-- Kinds of token before which the rule ends. -/
def stops : {c : Category} → Rule c → List Kind
  | _, entry _ | _, end_ | _, program | _, functions => [.eof]
  | _, terminators => [.eof, .keyword .fn, .op .rbrace]
  | _, params => [.op .lbrace]
  | _, names | _, items => [.op .rparen]
  | _, statements => [.op .rbrace]
  | _, function | _, scope | _, statement | _, named | _, ret | _, branch | _, clauses
  | _, clause _ => [.op .rbrace, .eof]
  | _, _ => [.op .rparen, .op .lineEnd, .op .rbrace, .eof]

/-- Kinds of tokens that the rule accepts. -/
def sample : {c : Category} → Rule c → List Kind
  | _, entry .program | _, program | _, function =>
    [.keyword .fn, .ident, .op .lparen, .op .rparen, .op .lbrace, .op .rbrace]
  | _, entry .statement | _, statement => [.op .lineEnd]
  | _, terminators | _, end_ | _, functions | _, names | _, statements | _, clauses | _, items
  | _, exprTail _ | _, termTail _ | _, disjunctionTail _ | _, conjunctionTail _
  | _, comparisonTail _ => []
  | _, params | _, args _ => [.op .lparen, .op .rparen]
  | _, scope => [.op .lbrace, .op .rbrace]
  | _, ret => [.keyword .return_]
  | _, branch => [.keyword .if_, .ident, .op .lineEnd]
  | _, clause _ => [.ident, .op .lineEnd]
  | _, call => [.ident, .op .lparen, .op .rparen]
  | _, _ => [.ident]

/-- A lexer makes tokens of every kind in the sample of a rule. -/
theorem isLexical_sample {c : Category} (rule : Rule c) :
    ∀ k ∈ rule.sample, k.isLexical = true := by
  cases rule with
  | entry e => cases e <;> decide
  | _ => exact List.all_eq_true.1 rfl

/-- Before the kinds at which a rule ends it accepts its sample. -/
theorem parses_sample {c : Category} (rule : Rule c) {after : List Token}
    (h : Follows rule.stops after) :
    ∃ a, rule.Parses (Tape.mk (rule.sample.map Kind.token ++ after)) a (Tape.mk after) := by
  obtain ⟨hk, he⟩ := h
  rename_i t rest
  obtain ⟨k, v, p⟩ := t
  cases rule <;> simp only [stops, List.mem_cons, List.not_mem_nil, or_false] at hk
  -- The number of steps is one that suffices for all of them.
  case entry e =>
    cases hk
    cases he rfl
    cases e <;> exact ⟨_, 20, rfl⟩
  case end_ | program | functions =>
    cases hk
    cases he rfl
    exact ⟨_, 20, rfl⟩
  case params | names | items | statements =>
    cases hk
    exact ⟨_, 20, rfl⟩
  case function | scope | statement | named | ret | branch | clauses | clause =>
    rcases hk with rfl | rfl <;> exact ⟨_, 20, rfl⟩
  case terminators => rcases hk with rfl | rfl | rfl <;> exact ⟨_, 20, rfl⟩
  all_goals rcases hk with rfl | rfl | rfl | rfl <;> exact ⟨_, 20, rfl⟩

end Rule

/-! ## Closing a script -/

/-- A tree of the category. -/
def Category.blank : (c : Category) → c.Tree
  | nothing => ()
  | tokens | exprs | statements | clauses | functions => []
  | expr => .leaf .none .absent 0
  | call => ⟨Kind.ident.token, ⟨[], 0⟩, 0⟩
  | args | params | scope => ⟨[], 0⟩
  | clause => ⟨.leaf .none .absent 0, .empty 0, 0⟩
  | branch => ⟨⟨.leaf .none .absent 0, .empty 0, 0⟩, [], none, 0⟩
  | statement => .empty 0
  | function => ⟨Kind.ident.token, ⟨[], 0⟩, ⟨[], 0⟩, 0⟩
  | program => ⟨[], 0⟩
  | node => .expr (.leaf .none .absent 0)

/-- The kinds of the first token where tokens of the kinds `ks` stand before one of the kinds
`stops`. -/
def heads (ks stops : List Kind) : List Kind :=
  match ks with
  | [] => stops
  | k :: _ => [k]

/-- With tokens in front, what follows begins with the first of them. -/
theorem Follows.closing {stops stops' ks : List Kind} {after : List Token}
    (h : Follows stops after) (hl : ∀ k ∈ ks, k.isLexical = true)
    (hs : ∀ k ∈ heads ks stops, k ∈ stops') : Follows stops' (ks.map Kind.token ++ after) := by
  cases ks with
  | nil =>
    obtain ⟨hk, he⟩ := h
    exact ⟨hs _ hk, he⟩
  | cons k ks =>
    refine ⟨hs _ (List.mem_singleton_self k), fun he => ?_⟩
    have lexical := hl k List.mem_cons_self
    rw [Kind.kind_token] at he
    rw [he] at lexical
    cases lexical

namespace Script

/-- The kinds of token that the script asks for from its beginning on. Where it looks at a token,
that is a brace: no list and no chain goes on with one. -/
def closing {α : Type} : Script α → List Kind
  | done _ | fail _ | ahead _ => []
  | current next => (next (Kind.op .rbrace).token).closing
  | eat kind next => if kind = .eof then [] else kind :: (next kind.token).closing
  | follow (c := c) rule next => rule.sample ++ (next c.blank).closing

/-- Whether the script accepts tokens of the kinds `ks` before one of the kinds `stops`, whatever
tokens and trees they are. -/
def Closes {α : Type} (stops : List Kind) : Script α → List Kind → Prop
  | done _, ks => ks = []
  | fail _, _ | ahead _, _ => False
  | current next, ks => ∀ k ∈ heads ks stops, ∀ v p, (next ⟨k, v, p⟩).Closes stops ks
  | eat kind next, ks =>
    (kind = .eof ∧ ks = [] ∧ stops = [.eof] ∨ ks.head? = some kind ∧ kind.isLexical = true) ∧
      ∀ t, (next t).Closes stops ks.tail
  | follow rule next, ks =>
    rule.sample <+: ks ∧
      (∀ k ∈ heads (ks.drop rule.sample.length) stops, k ∈ rule.stops) ∧
      ∀ a, (next a).Closes stops (ks.drop rule.sample.length)

/-- Whether the script, which finds the token `t`, can be completed before one of the kinds `stops`
wherever it has got to. -/
def Closable {α : Type} (stops : List Kind) : Script α → Token → Prop
  | done _, _ | fail _, _ => True
  | current next, t => (next t).Closable stops t
  | ahead next, t =>
    (∀ after, Follows stops after → ∃ b, (ahead next).Runs Rule.Parses (Tape.mk (t :: after)) b
      (Tape.mk after)) ∧ ∀ u, (next u).Closable stops t
  | eat _ next, _ =>
    ∀ t, (next t).Closes stops (next t).closing ∧ ∀ u, (next t).Closable stops u
  | follow (c := c) rule next, _ =>
    (∀ k ∈ heads (next c.blank).closing stops, k ∈ rule.stops) ∧
      ∀ a, (next a).Closes stops (next c.blank).closing ∧ ∀ u, (next a).Closable stops u

section
variable {α : Type} {p : Prop} [Decidable p] {x y : Script α} {stops ks : List Kind} {t : Token}

/-- A choice can be completed if the branch taken can. -/
theorem closable_ite :
    (if p then x else y).Closable stops t ↔
      (p → x.Closable stops t) ∧ (¬p → y.Closable stops t) := by
  split <;> simp_all

end

end Script

/-- A name is accepted by the rules that look at the token after it. -/
theorem Rule.parses_ident {c : Category} {rule : Rule c} {t : Token} {after : List Token}
    (h : rule.looksAhead = true) (ht : t.kind = .ident) (ha : Follows rule.stops after) :
    ∃ a, rule.Parses (Tape.mk (t :: after)) a (Tape.mk after) := by
  obtain ⟨hk, -⟩ := ha
  rename_i u rest
  obtain ⟨k, v, p⟩ := u
  obtain ⟨_, w, q⟩ := t
  cases ht
  cases rule with
  | named =>
    simp only [stops, List.mem_cons, List.not_mem_nil, or_false] at hk
    rcases hk with rfl | rfl <;> exact ⟨_, 20, rfl⟩
  | name =>
    simp only [stops, List.mem_cons, List.not_mem_nil, or_false] at hk
    rcases hk with rfl | rfl | rfl | rfl <;> exact ⟨_, 20, rfl⟩
  | _ => cases h

/-- Every rule can be completed wherever it gets to. -/
theorem Rule.closable_script {c : Category} {rule : Rule c} {t : Token}
    (h : rule.looksAhead = true → t.kind = .ident) : rule.script.Closable rule.stops t := by
  cases rule with
  | entry e =>
    cases e <;> simp [script, stops, sample, heads, Script.Closable, Script.Closes, Script.closing]
  | named =>
    refine ⟨fun after ha => ?_, ?_⟩
    · obtain ⟨a, parsed⟩ := parses_ident rfl (h rfl) ha
      obtain ⟨_, ⟨⟩, runs⟩ := parses_iff.1 parsed
      exact ⟨a, runs⟩
    · simp [stops, sample, heads, Kind.isLexical, Script.Closable, Script.closable_ite,
        Script.Closes, Script.closing]
  | name =>
    refine ⟨fun after ha => ?_, ?_⟩
    · obtain ⟨a, parsed⟩ := parses_ident rfl (h rfl) ha
      exact ⟨a, parses_iff.1 parsed⟩
    · simp [stops, heads, Script.Closable, Script.closable_ite, Script.Closes, Script.closing]
  | _ =>
    simp [script, stops, sample, heads, Kind.isLexical, Kind.mem_exprStart, Script.Closable,
      Script.closable_ite, Script.Closes, Script.closing]

/-! ## Completing -/

/-- The kinds that close a script are kinds of tokens of a lexer. -/
theorem Script.Closes.isLexical {α : Type} {script : Script α} {stops ks : List Kind}
    (h : script.Closes stops ks) : ∀ k ∈ ks, k.isLexical = true := by
  induction script generalizing ks with
  | done a =>
    cases h
    nofun
  | fail d | ahead next => exact h.elim
  | current next ih =>
    cases ks with
    | nil => nofun
    | cons k ks => exact ih _ (h k (List.mem_singleton_self k) .absent .nowhere)
  | eat kind next ih =>
    obtain ⟨first, rest⟩ := h
    cases ks with
    | nil => nofun
    | cons k ks =>
      rcases first with ⟨-, hnil, -⟩ | ⟨hk, lexical⟩
      · cases hnil
      · cases hk
        exact List.forall_mem_cons.2 ⟨lexical, ih kind.token (rest kind.token)⟩
  | @follow c rule next ih =>
    obtain ⟨⟨rest, rfl⟩, -, h⟩ := h
    rw [List.drop_left] at h
    intro k hk
    rcases List.mem_append.1 hk with hk | hk
    · exact rule.isLexical_sample k hk
    · exact ih c.blank (h c.blank) k hk

/-- A script accepts the kinds that close it. -/
theorem Script.Closes.runs {α : Type} {script : Script α} {stops ks : List Kind}
    (h : script.Closes stops ks) {after : List Token} (ha : Follows stops after) :
    ∃ b, script.Runs Rule.Parses (Tape.mk (ks.map Kind.token ++ after)) b (Tape.mk after) := by
  induction script generalizing ks with
  | done a =>
    cases h
    exact ⟨a, rfl, rfl⟩
  | fail d | ahead next => exact h.elim
  | current next ih =>
    cases ks with
    | nil =>
      obtain @⟨⟨k, v, p⟩, rest, hk, he⟩ := ha
      obtain ⟨b, runs⟩ := ih ⟨k, v, p⟩ (h k hk v p)
      exact ⟨b, _, rfl, runs⟩
    | cons k ks =>
      obtain ⟨b, runs⟩ := ih k.token (h k (List.mem_singleton_self k) .absent .nowhere)
      exact ⟨b, _, rfl, runs⟩
  | eat kind next ih =>
    obtain ⟨first, rest⟩ := h
    rcases first with ⟨rfl, rfl, rfl⟩ | ⟨first, -⟩
    · -- The end of the input stays current when it is consumed.
      obtain @⟨t, us, ht, he⟩ := ha
      have end_ : t.kind = .eof := List.mem_singleton.1 ht
      cases he end_
      obtain ⟨b, runs⟩ := ih t (rest t)
      exact ⟨b, t, _, ⟨rfl, Token.hasKind_of_eq end_, t, rfl⟩, runs⟩
    · obtain ⟨ks', rfl⟩ : ∃ ks', ks = kind :: ks' := List.head?_eq_some_iff.1 first
      obtain ⟨b, runs⟩ := ih kind.token (rest kind.token)
      have nonempty : ks'.map Kind.token ++ after ≠ [] := by
        obtain ⟨-, -⟩ := ha
        simp
      exact ⟨b, _, _, Tape.consumes_of_kind nonempty rfl, runs⟩
  | @follow c rule next ih =>
    obtain ⟨⟨ks', rfl⟩, stops', h⟩ := h
    rw [List.drop_left] at stops' h
    obtain ⟨a, parsed⟩ := rule.parses_sample (ha.closing (h c.blank).isLexical stops')
    obtain ⟨b, runs⟩ := ih a (h a)
    rw [List.map_append, List.append_assoc]
    exact ⟨b, a, _, parsed, runs⟩

/-- There are kinds whose tokens complete the tokens `us`: together they are accepted before any of
the kinds `stops`. -/
def Completable (stops : List Kind) (accepts : Tape → Tape → Prop) (us : List Token) : Prop :=
  ∃ ks : List Kind, (∀ k ∈ ks, k.isLexical = true) ∧ ∀ after, Follows stops after →
    accepts (Tape.mk (us ++ (ks.map Kind.token ++ after))) (Tape.mk after)

/-- Completable tokens are completable for whatever their acceptance implies. -/
theorem Completable.imp {stops : List Kind} {accepts accepts' : Tape → Tape → Prop}
    {us us' : List Token} (h : Completable stops accepts us)
    (hi : ∀ ts s', ts ≠ [] → accepts (Tape.mk (us ++ ts)) s' → accepts' (Tape.mk (us' ++ ts)) s') :
    Completable stops accepts' us' := by
  obtain ⟨ks, lexical, accepted⟩ := h
  refine ⟨ks, lexical, fun after ha => hi _ _ ?_ (accepted after ha)⟩
  obtain ⟨-, -⟩ := ha
  simp

/-- A script that is closed needs no tokens before the kinds that close it. -/
theorem Script.Closes.completable {α : Type} {script : Script α} {stops ks : List Kind}
    (h : script.Closes stops ks) :
    Completable stops (fun s s' => ∃ b, script.Runs Rule.Parses s b s') [] :=
  ⟨ks, h.isLexical, fun _ ha => h.runs ha⟩

/-- After a rule that is completed, the script that follows it is closed. -/
theorem Completable.follow {α : Type} {c : Category} {rule : Rule c} {next : c.Tree → Script α}
    {stops : List Kind} {us : List Token}
    (h : Completable rule.stops (fun s s' => ∃ a, rule.Parses s a s') us)
    (heads : ∀ k ∈ heads (next c.blank).closing stops, k ∈ rule.stops)
    (closes : ∀ a, (next a).Closes stops (next c.blank).closing) :
    Completable stops (fun s s' => ∃ b, (Script.follow rule next).Runs Rule.Parses s b s') us := by
  obtain ⟨ks, lexical, accepted⟩ := h
  have lexical' := (closes c.blank).isLexical
  refine ⟨ks ++ (next c.blank).closing, List.forall_mem_append.2 ⟨lexical, lexical'⟩, ?_⟩
  intro after ha
  obtain ⟨a, parsed⟩ := accepted _ (ha.closing lexical' heads)
  obtain ⟨b, runs⟩ := (closes a).runs ha
  rw [List.map_append, List.append_assoc]
  exact ⟨b, a, _, parsed, runs⟩

section
variable {t : Token} {rest : List Token}

/-- What a rule leaves before a script that leaves the token `t` and what is after it. -/
theorem exists_split {n : Nat} {c : Category} {rule : Rule c} {α : Type} {script : Script α}
    {us : List Token} {a : c.Tree} {s : Tape}
    (h : rule.run n (Tape.mk (us ++ t :: rest)) = .ok a s)
    (hl : left (script.run (fun rule => rule.run n) s) = t :: rest) :
    ∃ us₀ us₁, us = us₀ ++ us₁ ∧ s = Tape.mk (us₁ ++ t :: rest) := by
  have read := rule.left_suffix n (Tape.mk (us ++ t :: rest))
  have unread := script.left_suffix (fun rule s => rule.left_suffix n s) s
  rw [h] at read
  rw [hl] at unread
  obtain ⟨ts⟩ := s
  obtain ⟨us₁, rfl⟩ := unread
  obtain ⟨us₀, split⟩ := read
  refine ⟨us₀, us₁, ?_, rfl⟩
  exact List.append_cancel_right (split.symm.trans (List.append_assoc us₀ us₁ _).symm)

/-- How a script is completed that has not consumed the token `t`, given how the rules are that it
follows. -/
theorem Script.completable {n : Nat}
    (hf : ∀ {c : Category} (rule : Rule c) (us : List Token) (x : Token),
      (us ++ [t]).head? = some x → (rule.looksAhead = true → x.kind = .ident) →
      Settled (rule.run n (Tape.mk (us ++ t :: rest))) →
      left (rule.run n (Tape.mk (us ++ t :: rest))) = t :: rest →
      Completable rule.stops (fun s s' => ∃ a, rule.Parses s a s') us)
    {α : Type} {script : Script α} {stops : List Kind} {x : Token} {us : List Token}
    (ready : script.Ready x) (closable : script.Closable stops x)
    (settled : Settled (script.run (fun rule => rule.run n) (Tape.mk (x :: us ++ t :: rest))))
    (hl : left (script.run (fun rule => rule.run n) (Tape.mk (x :: us ++ t :: rest))) = t :: rest) :
    Completable stops (fun s s' => ∃ b, script.Runs Rule.Parses s b s') (x :: us) := by
  have longer : ∀ (x : Token) us, x :: us ++ t :: rest ≠ t :: rest := by
    intro x us h
    have := congrArg List.length h
    simp only [List.length_append, List.length_cons] at this
    omega
  induction script generalizing x us with
  | done a | fail d => exact absurd hl (longer x us)
  | current next ih =>
    refine (ih x ready closable settled hl).imp ?_
    rintro ts s' - ⟨b, runs⟩
    exact ⟨b, x, rfl, runs⟩
  | ahead next ih =>
    cases us with
    | nil => exact ⟨[], nofun, closable.1⟩
    | cons u us =>
      refine (ih u (ready u).2 (closable.2 u) settled hl).imp ?_
      rintro ts s' - ⟨b, runs⟩
      exact ⟨b, u, Tape.foresees, runs⟩
  | eat kind next ih =>
    by_cases hk : x.hasKind kind = true
    · obtain ⟨closes, closable⟩ := closable x
      have rest_completable : Completable stops
          (fun s s' => ∃ b, (next x).Runs Rule.Parses s b s') us := by
        cases us with
        | nil => exact closes.completable
        | cons u us =>
          rw [List.cons_append, List.cons_append, run_eat hk] at settled hl
          exact ih x (ready x u) (closable u) settled hl
      refine rest_completable.imp ?_
      rintro ts s' hts ⟨b, runs⟩
      exact ⟨b, x, _, Tape.consumes (by simp [hts]) hk, runs⟩
    · rw [List.cons_append, run_eat_of_not hk] at hl
      exact absurd hl (longer x us)
  | @follow c rule next ih =>
    have current : (x :: us ++ [t]).head? = some x := rfl
    have first := hf rule (x :: us) x current ready.1 (settled_follow settled)
    cases hc : rule.run n (Tape.mk (x :: us ++ t :: rest)) with
    | error e s₁ =>
      rw [run_follow_error hc] at hl
      rw [hc] at first
      exact (first hl).follow closable.1 fun a => (closable.2 a).1
    | ok a s₁ =>
      rw [run_follow_ok hc] at settled hl
      rw [hc] at first
      obtain ⟨us₀, us₁, split, rfl⟩ := exists_split hc hl
      cases us₁ with
      | nil => exact (first rfl).follow closable.1 fun a => (closable.2 a).1
      | cons y us₁ =>
        -- The rule has ended before: it ends there too whatever completes the tokens.
        have head : (us₀ ++ [y]).head? = some x := by
          cases us₀ <;> cases split <;> rfl
        rw [split] at hc ⊢
        rw [List.append_assoc] at hc
        have nonempty : us₁ ++ t :: rest ≠ [] := by simp
        refine (ih a (ready.2 a y) ((closable.2 a).2 y) settled hl).imp ?_
        rintro ts s' - ⟨b, runs⟩
        have parsed : rule.Parses (Tape.mk (us₀ ++ y :: (us₁ ++ ts))) _ _ :=
          Rule.parses_of_run nonempty head ready.1 hc
        rw [List.append_assoc]
        exact ⟨b, a, _, parsed, runs⟩

/-- What a rule has consumed before a token at which it ends, or fails, can be completed. -/
theorem Rule.completable {n : Nat} {c : Category} (rule : Rule c) {us : List Token} {x : Token}
    (hx : (us ++ [t]).head? = some x) (ready : rule.looksAhead = true → x.kind = .ident)
    (settled : Settled (rule.run n (Tape.mk (us ++ t :: rest))))
    (hl : left (rule.run n (Tape.mk (us ++ t :: rest))) = t :: rest) :
    Completable rule.stops (fun s s' => ∃ a, rule.Parses s a s') us := by
  induction n generalizing c us x with
  | zero => exact absurd rfl (settled _)
  | succ n ih =>
    cases us with
    | nil => exact ⟨rule.sample, rule.isLexical_sample, fun _ ha => rule.parses_sample ha⟩
    | cons u us =>
      cases hx
      have script := Script.completable (fun rule _ _ hx ready hs hl => ih rule hx ready hs hl)
        (ready_script ready) (closable_script ready) settled hl
      refine script.imp ?_
      rintro ts s' - ⟨b, runs⟩
      exact ⟨b, parses_iff.2 runs⟩

end

end Quill
