import Quill.Grammar.Run

/-!
# What a run can come to

A rule is run with a number of steps, and a run that is short of them fails. This module takes the
steps away. `Rule.Parses rule s a s'` says that the rule, run from the state `s` with steps enough,
comes to the tree `a` and the state `s'`. It is the least relation that is closed under the
scripts: a rule parses exactly what its script runs to, the rules that are followed parsing in turn
(`Rule.parses_iff`), and what is kept by every script is true of every parse
(`Rule.Parses.induction`). A script is read by `Script.Runs`, which takes from the caller what
following a rule can come to.

Failures count too: a run that does not want for steps ends in the same way with any further ones
(`Rule.run_of_settled`).
-/

namespace Quill

open TokenReader

section
variable {ε σ α β : Type}

/-- One operation after another, at a state. -/
theorem bind_eq (x : EStateM ε σ α) (f : α → EStateM ε σ β) (s : σ) :
    (x >>= f) s =
      match x s with
      | .ok a s' => f a s'
      | .error e s' => .error e s' := by
  show EStateM.bind x f s = _
  unfold EStateM.bind
  cases x s <;> rfl

end

variable {σ : Type} [TokenReader σ]

/-- The current token, at a state. -/
theorem current_eq (s : σ) : TokenReader.current s =
    match current? s with
    | some t => .ok t s
    | none => .error .noCurrentToken s := by
  show (match current? s with
    | some t => pure t
    | none => throw .noCurrentToken : EStateM Fault σ Token) s = _
  cases current? s <;> rfl

/-- Consuming a token, at a state: the current token is compared first, then the next one read. -/
theorem consume_eq (kind : Kind) (s : σ) : consume kind s =
    match current? s with
    | none => .error .notStarted s
    | some t =>
      if t.hasKind kind then
        match advance s with
        | .ok _ s' => .ok t s'
        | .error e s' => .error e s'
      else .error (.atPosition (.tokenMismatch kind t.kind) t.pos) s := by
  show (match current? s with
    | none => throw .notStarted
    | some t =>
      if t.hasKind kind then do
        let _ ← advance
        pure t
      else throw (.atPosition (.tokenMismatch kind t.kind) t.pos) : EStateM Fault σ Token) s = _
  cases current? s with
  | none => rfl
  | some t =>
    simp only
    split
    · rw [bind_eq]
      cases advance s <;> rfl
    · rfl

/-- Only operators are confused with each other. -/
theorem Token.eq_of_hasKind {t : Token} {kind : Kind} (h : t.hasKind kind = true)
    (hk : kind.isOperator = false) : t.kind = kind := by
  have hne : ¬(kind = .anyOp ∨ t.kind = .anyOp) := by
    rintro (rfl | ht)
    · cases hk
    · simp [hasKind, isOperator, ht, hk] at h
  simpa [hasKind, hne] using h

/-- A token has the kind that it is of. -/
theorem Token.hasKind_of_eq {t : Token} {kind : Kind} (h : t.kind = kind) :
    t.hasKind kind = true := by
  unfold hasKind
  split
  · rename_i ha
    have both : t.kind = .anyOp := ha.elim (fun hk => h.trans hk) id
    simp [isOperator, ← h, both, Kind.isOperator]
  · simpa using h

/-- An operator agrees with every operator. -/
theorem Token.hasKind_anyOp {t : Token} {o : Operator} (h : t.kind = .op o) :
    t.hasKind .anyOp = true := by
  simp [hasKind, isOperator, h, Kind.isOperator]

/-- The current token `t` is of the kind, and consuming it leads to the state `s'`. -/
def Consumes (kind : Kind) (s : σ) (t : Token) (s' : σ) : Prop :=
  current? s = some t ∧ t.hasKind kind = true ∧ ∃ u, advance s = .ok u s'

/-- The token after the current one is `t`. -/
def Foresees (s : σ) (t : Token) : Prop := ∃ s', advance s = .ok t s'

/-! ## Scripts -/

namespace Script

-- The commands, so that a script written with them unfolds to its constructors.
attribute [simp] Script.bind peek peekAhead expect parse at? reject terminator separator chain

@[simp] theorem pure_eq {α : Type} (a : α) : (pure a : Script α) = done a := rfl

@[simp] theorem bind_eq_bind {α β : Type} (x : Script α) (f : α → Script β) :
    (x >>= f) = x.bind f := rfl

@[simp] theorem ite_bind {α β : Type} {p : Prop} [Decidable p] (x y : Script α)
    (f : α → Script β) : (if p then x else y).bind f = if p then x.bind f else y.bind f := by
  split <;> rfl

/-- From the state `s` the script can come to the result `b` and the state `s'`, where `follows`
tells what following a rule can come to. -/
def Runs (follows : {c : Category} → Rule c → σ → c.Tree → σ → Prop) {α : Type} :
    Script α → σ → α → σ → Prop
  | done a, s, b, s' => b = a ∧ s' = s
  | fail _, _, _, _ => False
  | current next, s, b, s' => ∃ t, current? s = some t ∧ (next t).Runs follows s b s'
  | ahead next, s, b, s' => ∃ t, Foresees s t ∧ (next t).Runs follows s b s'
  | eat kind next, s, b, s' => ∃ t s₁, Consumes kind s t s₁ ∧ (next t).Runs follows s₁ b s'
  | follow rule next, s, b, s' => ∃ a s₁, follows rule s a s₁ ∧ (next a).Runs follows s₁ b s'

section
variable {follow follow' : {c : Category} → Rule c → EStateM Fault σ c.Tree}
variable {follows follows' : {c : Category} → Rule c → σ → c.Tree → σ → Prop}
variable {α β : Type} {s s' : σ}

/-- A script that is run succeeds exactly with what it can come to. -/
theorem run_eq_ok_iff {script : Script α} {b : α} :
    script.run follow s = .ok b s' ↔
      script.Runs (fun rule s a s' => follow rule s = .ok a s') s b s' := by
  induction script generalizing s with
  | done a =>
    show EStateM.Result.ok a s = .ok b s' ↔ b = a ∧ s' = s
    simp [eq_comm]
  | fail d =>
    show EStateM.Result.error _ s = .ok b s' ↔ False
    simp
  | current next ih =>
    rw [run, bind_eq, current_eq, Runs]
    cases current? s with
    | none => simp
    | some t => simp [ih]
  | ahead next ih =>
    rw [run, bind_eq, TokenReader.ahead, Runs]
    cases ha : advance s with
    | error e s₁ => simp [Foresees, ha]
    | ok t s₁ => simp [Foresees, ha, ih]
  | eat kind next ih =>
    rw [run, bind_eq, consume_eq, Runs]
    simp only [Consumes]
    cases current? s with
    | none => simp
    | some t =>
      by_cases hk : t.hasKind kind = true
      · cases ha : advance s with
        | error e s₁ => simp [hk]
        | ok u s₁ => simp [ih, hk, and_assoc]
      · simp only [hk]
        constructor
        · intro h
          cases h
        · rintro ⟨t', s₁, ⟨ht, hk', -⟩, -⟩
          cases ht
          exact absurd hk' hk
  | follow rule next ih =>
    rw [run, bind_eq, Runs]
    cases hf : follow rule s with
    | error e s₁ => simp
    | ok a s₁ => simp [ih, and_assoc]

/-- Where following a rule can come to more, so can a script. -/
theorem Runs.imp
    (h : ∀ {c : Category} (rule : Rule c) s a s', follows rule s a s' → follows' rule s a s')
    {script : Script α} {b : α} (hr : script.Runs follows s b s') :
    script.Runs follows' s b s' := by
  induction script generalizing s with
  | done a => exact hr
  | fail d => exact hr
  | current next ih | ahead next ih =>
    obtain ⟨t, ht, hn⟩ := hr
    exact ⟨t, ht, ih t hn⟩
  | eat kind next ih =>
    obtain ⟨t, s₁, ht, hn⟩ := hr
    exact ⟨t, s₁, ht, ih t hn⟩
  | follow rule next ih =>
    obtain ⟨a, s₁, hf, hn⟩ := hr
    exact ⟨a, s₁, h rule _ _ _ hf, ih a hn⟩

/-- A script that goes one of two ways. -/
theorem runs_ite {p : Prop} [Decidable p] {x y : Script α} {b : α} :
    (if p then x else y).Runs follows s b s' ↔
      p ∧ x.Runs follows s b s' ∨ ¬p ∧ y.Runs follows s b s' := by
  split <;> simp_all

end

end Script

/-! ## One command -/

namespace Script
variable {follow : {c : Category} → Rule c → EStateM Fault σ c.Tree} {α : Type} {kind : Kind}
  {s s₁ : σ} {t u : Token} {e : Fault} {next : Token → Script α}

/-- A script that asks for the current token goes on with it. -/
theorem run_current (ht : current? s = some t) :
    (current next).run follow s = (next t).run follow s := by
  show (TokenReader.current >>= fun t => (next t).run follow) s = _
  rw [bind_eq, current_eq, ht]

/-- A script that looks ahead goes on with the token that would be read. -/
theorem run_ahead (ha : advance s = .ok u s₁) :
    (ahead next).run follow s = (next u).run follow s := by
  show (TokenReader.ahead >>= fun t => (next t).run follow) s = _
  rw [bind_eq, TokenReader.ahead, ha]

/-- A script that looks ahead fails where reading would. -/
theorem run_ahead_error (ha : advance s = .error e s₁) :
    (ahead next).run follow s = .error e s := by
  show (TokenReader.ahead >>= fun t => (next t).run follow) s = _
  rw [bind_eq, TokenReader.ahead, ha]

/-- A script that wants a kind of token goes on past a token of that kind. -/
theorem run_eat_advance (ht : current? s = some t) (hk : t.hasKind kind = true)
    (ha : advance s = .ok u s₁) : (eat kind next).run follow s = (next t).run follow s₁ := by
  show (consume kind >>= fun t => (next t).run follow) s = _
  rw [bind_eq, consume_eq, ht]
  simp only [hk, ha, if_true]

/-- A script that wants a kind of token fails where the one after it cannot be read. -/
theorem run_eat_error (ht : current? s = some t) (hk : t.hasKind kind = true)
    (ha : advance s = .error e s₁) : (eat kind next).run follow s = .error e s₁ := by
  show (consume kind >>= fun t => (next t).run follow) s = _
  rw [bind_eq, consume_eq, ht]
  simp only [hk, ha, if_true]

/-- A script that wants a kind of token fails at one of another kind. -/
theorem run_eat_mismatch (ht : current? s = some t) (hk : ¬t.hasKind kind = true) :
    (eat kind next).run follow s = .error (.atPosition (.tokenMismatch kind t.kind) t.pos) s := by
  show (consume kind >>= fun t => (next t).run follow) s = _
  rw [bind_eq, consume_eq, ht]
  simp only [hk]
  rfl

/-- A script that follows a rule goes on with its tree. -/
theorem run_follow_ok {c : Category} {rule : Rule c} {next : c.Tree → Script α} {a : c.Tree}
    (h : follow rule s = .ok a s₁) :
    (Script.follow rule next).run follow s = (next a).run follow s₁ := by
  show (follow rule >>= fun a => (next a).run follow) s = _
  rw [bind_eq, h]

/-- A script that follows a rule fails as the rule does. -/
theorem run_follow_error {c : Category} {rule : Rule c} {next : c.Tree → Script α}
    (h : follow rule s = .error e s₁) :
    (Script.follow rule next).run follow s = .error e s₁ := by
  show (follow rule >>= fun a => (next a).run follow) s = _
  rw [bind_eq, h]

end Script

/-! ## Further steps -/

/-- Whether a run ended otherwise than for want of steps. -/
def Settled {α : Type} (r : EStateM.Result Fault σ α) : Prop := ∀ s', r ≠ .error .outOfSteps s'

/-- Where a script that follows a rule has steps enough, the rule has. -/
theorem Script.settled_follow {follow : {c : Category} → Rule c → EStateM Fault σ c.Tree} {α : Type}
    {c : Category} {rule : Rule c} {next : c.Tree → Script α} {s : σ}
    (h : Settled ((Script.follow rule next).run follow s)) : Settled (follow rule s) := by
  intro s₁ he
  rw [run_follow_error he] at h
  exact h s₁ rfl

/-- A settled script ends in the same way where the rules that settle are followed in the same
way. -/
theorem Script.run_congr {follow follow' : {c : Category} → Rule c → EStateM Fault σ c.Tree}
    {α : Type}
    (h : ∀ {c : Category} (rule : Rule c) (s : σ), Settled (follow rule s) →
      follow' rule s = follow rule s)
    {script : Script α} {s : σ} (hs : Settled (script.run follow s)) :
    script.run follow' s = script.run follow s := by
  induction script generalizing s with
  | done a | fail d => rfl
  | current next ih =>
    simp only [run, bind_eq] at hs ⊢
    cases hc : TokenReader.current s with
    | error e s₁ => rfl
    | ok t s₁ => rw [hc] at hs; exact ih t hs
  | ahead next ih =>
    simp only [run, bind_eq] at hs ⊢
    cases hc : TokenReader.ahead s with
    | error e s₁ => rfl
    | ok t s₁ => rw [hc] at hs; exact ih t hs
  | eat kind next ih =>
    simp only [run, bind_eq] at hs ⊢
    cases hc : TokenReader.consume kind s with
    | error e s₁ => rfl
    | ok t s₁ => rw [hc] at hs; exact ih t hs
  | follow rule next ih =>
    have same := h rule s (settled_follow hs)
    cases hc : follow rule s with
    | error e s₁ => rw [run_follow_error hc, run_follow_error (same.trans hc)]
    | ok a s₁ =>
      rw [run_follow_ok hc] at hs ⊢
      rw [run_follow_ok (same.trans hc)]
      exact ih a hs

namespace Rule
variable {c : Category} {s s' : σ}

/-- One further step changes nothing in a run that has settled. -/
theorem run_succ_of_settled {n : Nat} {rule : Rule c} (hs : Settled (rule.run n s)) :
    rule.run (n + 1) s = rule.run n s := by
  induction n generalizing c s with
  | zero => exact absurd rfl (hs s)
  | succ n ih => exact Script.run_congr (fun _ _ => ih) hs

/-- Further steps change nothing in a run that has settled. -/
theorem run_of_settled {n m : Nat} {rule : Rule c} (hs : Settled (rule.run n s)) (hm : n ≤ m) :
    rule.run m s = rule.run n s := by
  induction hm with
  | refl => rfl
  | step _ ih =>
    rw [run_succ_of_settled, ih]
    rw [ih]
    exact hs

/-- What has been parsed is parsed with further steps too. -/
theorem run_eq_ok_of_le {n m : Nat} {rule : Rule c} {a : c.Tree} (h : rule.run n s = .ok a s')
    (hm : n ≤ m) : rule.run m s = .ok a s' := by
  have settled : Settled (rule.run n s) := by
    intro s₁ he
    rw [h] at he
    cases he
  rw [run_of_settled settled hm, h]

/-! ## Parses -/

/-- With steps enough, the rule comes from the state `s` to the tree `a` and the state `s'`. -/
def Parses (rule : Rule c) (s : σ) (a : c.Tree) (s' : σ) : Prop := ∃ n, rule.run n s = .ok a s'

end Rule

/-- A script that follows what can be parsed needs a number of steps that can be told. -/
theorem Script.Runs.exists_steps {α : Type} {script : Script α} {b : α} {s s' : σ}
    (h : script.Runs Rule.Parses s b s') :
    ∃ n, script.Runs (fun rule s a s' => rule.run n s = .ok a s') s b s' := by
  induction script generalizing s with
  | done a => exact ⟨0, h⟩
  | fail d => exact h.elim
  | current next ih | ahead next ih =>
    obtain ⟨t, ht, h⟩ := h
    obtain ⟨n, hn⟩ := ih t h
    exact ⟨n, t, ht, hn⟩
  | eat kind next ih =>
    obtain ⟨t, s₁, ht, h⟩ := h
    obtain ⟨n, hn⟩ := ih t h
    exact ⟨n, t, s₁, ht, hn⟩
  | follow rule next ih =>
    obtain ⟨a, s₁, ⟨n, hn⟩, h⟩ := h
    obtain ⟨m, hm⟩ := ih a h
    refine ⟨max n m, a, s₁, Rule.run_eq_ok_of_le hn (Nat.le_max_left ..), ?_⟩
    exact hm.imp fun rule s a s' h => Rule.run_eq_ok_of_le h (Nat.le_max_right ..)

namespace Rule
variable {c : Category} {s s' : σ} {rule : Rule c} {a : c.Tree}

/-- A rule parses what its script runs to. -/
theorem parses_iff : rule.Parses s a s' ↔ rule.script.Runs Parses s a s' := by
  constructor
  · rintro ⟨n, hn⟩
    cases n with
    | zero => cases hn
    | succ n => exact (Script.run_eq_ok_iff.1 hn).imp fun _ _ _ _ h => ⟨n, h⟩
  · intro h
    obtain ⟨n, hn⟩ := h.exists_steps
    exact ⟨n + 1, Script.run_eq_ok_iff.2 hn⟩

/-- A rule comes to one tree only. -/
theorem Parses.unique {b : c.Tree} {s'' : σ} (h : rule.Parses s a s') (h' : rule.Parses s b s'') :
    a = b ∧ s' = s'' := by
  obtain ⟨n, hn⟩ := h
  obtain ⟨m, hm⟩ := h'
  have same := (run_eq_ok_of_le hn (Nat.le_max_left n m)).symm.trans
    (run_eq_ok_of_le hm (Nat.le_max_right n m))
  cases same
  exact ⟨rfl, rfl⟩

/-- What every script keeps, if the rules that it follows do, is true of every parse. -/
theorem Parses.induction {motive : {c : Category} → Rule c → σ → c.Tree → σ → Prop}
    (step : ∀ {c : Category} (rule : Rule c) (s : σ) (a : c.Tree) (s' : σ),
      rule.script.Runs (fun rule s a s' => rule.Parses s a s' ∧ motive rule s a s') s a s' →
        motive rule s a s')
    (h : rule.Parses s a s') : motive rule s a s' := by
  obtain ⟨n, hn⟩ := h
  induction n generalizing c s s' with
  | zero => cases hn
  | succ n ih =>
    refine step rule s a s' ?_
    exact (Script.run_eq_ok_iff.1 hn).imp fun rule s a s' h => ⟨⟨n, h⟩, ih h⟩

end Rule

end Quill
