import Quill.Proofs.Likeness

/-!
# Readers that keep step

Two readers keep step along a relation between their states if they give tokens that are alike, but
where the first one gives a terminator the second one may give two (`KeepStep`). Rules that are
alike then end in the same way on both (`Rule.ends`).

A second terminator is never felt, since every terminator that is consumed is followed by nothing,
or by the skipping of further ones. What comes next may lie beyond the rule that consumes it: a
statement ends with one terminator at most, and it is left to what goes on after the statement to
skip the others (`Rule.lags`). So a rule may end with the second reader still at the other
terminator (`Behind`). It may even fail where the second reader does not fail yet, because no token
can be read after the terminator (`Failing`). All this is read off the scripts
(`Rule.passes_script`).
-/

namespace Quill

open TokenReader LawfulReader

/-- Two faults are the same but for their positions. -/
def Fault.Like : Fault → Fault → Prop
  | diagnostic d, diagnostic d' => d.cause = d'.cause
  | e, e' => e = e'

/-! ## What follows a terminator -/

/-- Whether the rule can end with a terminator that it has consumed. -/
def Rule.lags : {c : Category} → Rule c → Bool
  | _, statement | _, named | _, ret | _, branch | _, clause _ => true
  | _, _ => false

/-- Whether the rule begins with skipping terminators. -/
def Rule.skips : {c : Category} → Rule c → Bool
  | _, terminators | _, end_ => true
  | _, _ => false

namespace Script

/-- Whether the script only skips terminators before it looks at anything else. One that does
nothing is said to, if what goes on after it does (`lags`). -/
def Skips (lags : Bool) {α : Type} : Script α → Prop
  | done _ => lags = true
  | follow rule _ => rule.skips = true
  | fail _ | current _ | ahead _ | eat _ _ => False

/-- Whether the script, which finds the token `t`, skips terminators wherever it has consumed
one. -/
def Passes (lags : Bool) {α : Type} : Script α → Token → Prop
  | done _, _ | fail _, _ => True
  | current next, t => (next t).Passes lags t
  | ahead next, t => t.kind ≠ .op .lineEnd ∧ ∀ u, (next u).Passes lags t
  | eat kind next, t =>
    (t.kind = .op .lineEnd → t.hasKind kind = true → (next t).Skips lags) ∧
      ∀ u, (next t).Passes lags u
  | follow rule next, _ =>
    (rule.lags = true → ∀ a, (next a).Skips lags) ∧ ∀ a u, (next a).Passes lags u

/-- A choice skips terminators after one if the branch taken does. -/
theorem passes_ite {lags : Bool} {α : Type} {p : Prop} [Decidable p] {x y : Script α} {t : Token} :
    (if p then x else y).Passes lags t ↔ (p → x.Passes lags t) ∧ (¬p → y.Passes lags t) := by
  split <;> simp_all

/-- A chain whose operators are no terminators has consumed none where it goes on. -/
theorem passes_chain {lags : Bool} {operators : List Operator} {consumed : Kind}
    {operand : Rule .expr} {tail : Expr → Rule .expr} {l : Expr} {t : Token}
    (ho : .op .lineEnd ∉ operators.map Kind.op) (hr : operand.lags = false)
    (ht : ∀ e, (tail e).lags = false) :
    (chain operators consumed operand tail l).Passes lags t := by
  simp only [chain, at?, expect, parse, bind_eq_bind, bind, pure_eq, Passes, passes_ite,
    decide_eq_true_eq, hr, ht]
  refine ⟨fun hk => ⟨fun heq => ?_, ?_⟩, fun _ => trivial⟩
  · rw [heq] at hk
    exact absurd hk ho
  · exact fun _ => ⟨nofun, fun _ _ => ⟨nofun, fun _ _ => trivial⟩⟩

end Script

section
attribute [local simp] Script.Passes Script.Skips Script.passes_ite Rule.lags Rule.skips

/-- The rules skip terminators wherever they have consumed one. -/
theorem Rule.passes_script {c : Category} {rule : Rule c} {t : Token}
    (h : rule.looksAhead = true → t.kind = .ident) : rule.script.Passes rule.lags t := by
  cases rule with
  | entry e => cases e <;> simp [script]
  | named | name =>
    have ht := h rfl
    simp +contextual [script, Token.hasKind, ht]
  | factor =>
    have sign : t.kind = .op .pos ∨ t.kind = .op .neg → t.kind ≠ .op .lineEnd := by
      rintro (h | h) <;> simp [h]
    simp +contextual [script, Token.hasKind, sign]
  | exprTail | termTail | disjunctionTail | conjunctionTail | comparisonTail =>
    exact Script.passes_chain (by decide) rfl fun _ => rfl
  | _ => simp +contextual [script, Token.hasKind]

end

/-! ## Readers -/

section
variable {σ τ : Type}

/-- Reading on gives tokens that are alike and leaves related states, or fails in the same way. -/
inductive Paired (R : σ → τ → Prop) :
    EStateM.Result Fault σ Token → EStateM.Result Fault τ Token → Prop
  | ok {u v s t} : u.Like v → R s t → Paired R (.ok u s) (.ok v t)
  | error {e e' s t} : e.Like e' → Paired R (.error e s) (.error e' t)

variable [TokenReader σ] [TokenReader τ]

/-- Two readers give tokens that are alike, but for second terminators that the second one gives
after terminators of the first one. -/
structure KeepStep (R : σ → τ → Prop) : Prop where
  current : ∀ {s t}, R s t →
    ∃ u v, current? s = some u ∧ current? t = some v ∧ u.Like v
  advance : ∀ {s t}, R s t → Paired R (advance s) (advance t) ∨
    (∀ u, current? s = some u → u.kind = .op .lineEnd) ∧ ∃ v t', advance t = .ok v t' ∧
      current? t' = some v ∧ v.kind = .op .lineEnd ∧ Paired R (advance s) (advance t')

section
variable (R : σ → τ → Prop)

/-- The second reader is at a terminator after which the two keep step. -/
def Behind (s : σ) (t : τ) : Prop :=
  ∃ v w t', current? t = some v ∧ v.kind = .op .lineEnd ∧ advance t = .ok w t' ∧ R s t'

/-- The first reader cannot be read on, from a state in which the two keep step. -/
def Unread (e : Fault) : Prop := ∃ s s' t, R s t ∧ advance s = .error e s'

/-- The first reader cannot be read on, and the second one is at a terminator after which it cannot
be read on either. -/
def Failing (e : Fault) (t : τ) : Prop :=
  Unread R e ∧ ∃ v e' t', current? t = some v ∧ v.kind = .op .lineEnd ∧ advance t = .error e' t' ∧
    e.Like e'

/-- The rule can be run on both readers: they keep step, and if the rule looks behind the current
token it is a name; or the second one is behind, and the rule skips terminators. -/
def Rule.Meets {c : Category} (rule : Rule c) (s : σ) (t : τ) : Prop :=
  R s t ∧ (∀ u, current? s = some u → rule.looksAhead = true → u.kind = .ident) ∨
    rule.skips = true ∧ Behind R s t

/-- How runs on two readers end, of which the second one may lag behind with a terminator. -/
inductive Ends (lags : Bool) {α : Type} (same : α → α → Prop) :
    EStateM.Result Fault σ α → EStateM.Result Fault τ α → Prop
  | ok {a b s t} : same a b → R s t → Ends lags same (.ok a s) (.ok b t)
  | behind {a b s t} : lags = true → same a b → Behind R s t → Ends lags same (.ok a s) (.ok b t)
  | failing {e b s t} : lags = true → Failing R e t → Ends lags same (.error e s) (.ok b t)
  | rejected {cause u v s t} : R s t → current? s = some u → current? t = some v →
      Ends lags same (.error (.atPosition cause u.pos) s) (.error (.atPosition cause v.pos) t)
  | unread {e e' s t} : Unread R e → e.Like e' → Ends lags same (.error e s) (.error e' t)

end

/-! ## Runs -/

/-- Tokens that are alike are of the same kinds. -/
theorem Token.Like.hasKind_eq {u v : Token} (h : u.Like v) (kind : Kind) :
    u.hasKind kind = v.hasKind kind := by
  rw [Token.hasKind, Token.hasKind, Token.isOperator, Token.isOperator, h.kind]

/-- A diagnostic that reports a token has its position. -/
theorem Fault.Reports.eq_mk {d : Diagnostic} {u : Token} (h : (diagnostic d).Reports u) :
    d = ⟨d.cause, u.pos⟩ := by
  rcases h with ⟨_, h⟩ | ⟨_, _, h⟩ <;> cases h <;> rfl

/-- Rules that are alike can both end with a terminator, or neither can. -/
theorem Rule.Like.lags_eq {c : Category} {rule rule' : Rule c} (h : rule.Like rule') :
    rule.lags = rule'.lags := by
  cases h <;> rfl

/-- Rules that are alike both look ahead, or neither does. -/
theorem Rule.Like.looksAhead_eq {c : Category} {rule rule' : Rule c} (h : rule.Like rule') :
    rule.looksAhead = rule'.looksAhead := by
  cases h <;> rfl

variable {R : σ → τ → Prop}

section
variable {α : Type} {same : α → α → Prop} {lags : Bool} {e : Fault} {s : σ} {t : τ}

/-- A script that only skips terminators fails after one behind which nothing can be read. -/
theorem Script.ends_failing {follow : {c : Category} → Rule c → EStateM Fault τ c.Tree}
    (hf : ∀ {c : Category} {rule : Rule c} {e t}, rule.skips = true → Failing R e t →
      Settled (follow rule t) → ∃ e' t', follow rule t = .error e' t' ∧ e.Like e')
    {script : Script α} (hk : script.Skips lags) (h : Failing R e t)
    (ht : Settled (script.run follow t)) :
    Ends R lags same (.error e s) (script.run follow t) := by
  cases script with
  | done b => exact .failing hk h
  | fail | current | ahead | eat => exact hk.elim
  | follow rule next =>
    obtain ⟨e', t', error, like⟩ := hf hk h (settled_follow ht)
    rw [run_follow_error error]
    exact .unread h.1 like

variable (hR : KeepStep R)
include hR

/-- How scripts that go alike end on readers that keep step, given how the rules do that they
follow. -/
theorem Script.ends {follow : {c : Category} → Rule c → EStateM Fault σ c.Tree}
    {follow' : {c : Category} → Rule c → EStateM Fault τ c.Tree}
    (hf : ∀ {c : Category} {rule rule' : Rule c} {s t}, rule.Like rule' → rule.Meets R s t →
      Settled (follow rule s) → Settled (follow' rule' t) →
      Ends R rule.lags c.Same (follow rule s) (follow' rule' t))
    (hd : ∀ {c : Category} {rule : Rule c} {e t}, rule.skips = true → Failing R e t →
      Settled (follow' rule t) → ∃ e' t', follow' rule t = .error e' t' ∧ e.Like e')
    {script script' : Script α} {u v : Token} (like : script.Like same script' u v)
    (rejects : script.Rejects u) (rejects' : script'.Rejects v) (ready : script.Ready u)
    (passes : script.Passes lags u) (passes' : script'.Passes lags v)
    (h : (R s t ∧ current? s = some u ∧ current? t = some v ∧ u.Like v) ∨
      script.Skips lags ∧ Behind R s t)
    (hs : Settled (script.run follow s)) (ht : Settled (script'.run follow' t)) :
    Ends R lags same (script.run follow s) (script'.run follow' t) := by
  induction like generalizing s t with
  | done hab =>
    rcases h with ⟨inStep, -⟩ | ⟨skips, behind⟩
    · exact .ok hab inStep
    · exact .behind skips hab behind
  | fail hc =>
    obtain ⟨inStep, hu, hv, -⟩ := h.resolve_right fun h => h.1
    rw [Fault.Reports.eq_mk rejects, Fault.Reports.eq_mk rejects', ← hc]
    exact .rejected inStep hu hv
  | current _ ih =>
    obtain ⟨inStep, hu, hv, huv⟩ := h.resolve_right fun h => h.1
    rw [run_current hu] at hs ⊢
    rw [run_current hv] at ht ⊢
    exact ih rejects rejects' ready passes passes' (.inl ⟨inStep, hu, hv, huv⟩) hs ht
  | ahead _ ih =>
    obtain ⟨inStep, hu, hv, huv⟩ := h.resolve_right fun h => h.1
    -- Only a name is looked behind, so no second terminator comes between.
    have paired := (hR.advance inStep).resolve_right fun h => passes.1 (h.1 _ hu)
    generalize hx : advance s = x, hy : advance t = y at paired
    cases paired with
    | @ok x y _ _ alike =>
      rw [run_ahead hx] at hs ⊢
      rw [run_ahead hy] at ht ⊢
      exact ih alike (rejects x) (rejects' y) (ready x).2 (passes.2 x) (passes'.2 y)
        (.inl ⟨inStep, hu, hv, huv⟩) hs ht
    | error alike =>
      rw [run_ahead_error hx, run_ahead_error hy]
      exact .unread ⟨_, _, _, inStep, hx⟩ alike
  | @eat kind next next' u v _ ih =>
    obtain ⟨inStep, hu, hv, huv⟩ := h.resolve_right fun h => h.1
    by_cases hk : u.hasKind kind = true
    · have hk' : v.hasKind kind = true := huv.hasKind_eq kind ▸ hk
      rcases hR.advance inStep with paired | ⟨terminator, w, t₁, hw, second, hwk, paired⟩
      · generalize hx : advance s = x, hy : advance t = y at paired
        cases paired with
        | ok _ inStep₁ =>
          obtain ⟨x, y, hx₁, hy₁, hxy⟩ := hR.current inStep₁
          rw [run_eat_advance hu hk hx] at hs ⊢
          rw [run_eat_advance hv hk' hy] at ht ⊢
          exact ih hxy (rejects u x) (rejects' v y) (ready u x) (passes.2 x) (passes'.2 y)
            (.inl ⟨inStep₁, hx₁, hy₁, hxy⟩) hs ht
        | error alike =>
          rw [run_eat_error hu hk hx, run_eat_error hv hk' hy]
          exact .unread ⟨_, _, _, inStep, hx⟩ alike
      · -- The second reader is left at the other terminator.
        rw [run_eat_advance hv hk' hw] at ht ⊢
        generalize hx : advance s = x, hy : advance t₁ = y at paired
        cases paired with
        | ok _ inStep₁ =>
          obtain ⟨x, y, -, -, hxy⟩ := hR.current inStep₁
          rw [run_eat_advance hu hk hx] at hs ⊢
          exact ih hxy (rejects u x) (rejects' v y) (ready u x) (passes.2 x) (passes'.2 y)
            (.inr ⟨passes.1 (terminator u hu) hk, w, _, _, second, hwk, hy, inStep₁⟩) hs ht
        | error alike =>
          rw [run_eat_error hu hk hx]
          refine ends_failing hd (passes'.1 (huv.kind ▸ terminator u hu) hk') ?_ ht
          exact ⟨⟨_, _, _, inStep, hx⟩, w, _, _, second, hwk, hy, alike⟩
    · have hk' : ¬v.hasKind kind = true := huv.hasKind_eq kind ▸ hk
      rw [run_eat_mismatch hu hk, run_eat_mismatch hv hk', ← huv.kind]
      exact .rejected inStep hu hv
  | @follow c rule rule' next next' u v hr _ ih =>
    have first := hf hr (h.imp (fun h => ⟨h.1, fun x hx => ?_⟩) id) (settled_follow hs)
      (settled_follow ht)
    · generalize hx : follow rule s = x, hy : follow' rule' t = y at first
      cases first with
      | ok hab inStep₁ =>
        obtain ⟨x, y, hx₁, hy₁, hxy⟩ := hR.current inStep₁
        rw [run_follow_ok hx] at hs ⊢
        rw [run_follow_ok hy] at ht ⊢
        exact ih _ _ hab hxy (rejects _ x) (rejects' _ y) (ready.2 _ x) (passes.2 _ x)
          (passes'.2 _ y) (.inl ⟨inStep₁, hx₁, hy₁, hxy⟩) hs ht
      | behind lags hab behind =>
        obtain ⟨w, _, t₂, hw, hwk, ha, inStep₁⟩ := behind
        obtain ⟨x, y, -, -, hxy⟩ := hR.current inStep₁
        rw [run_follow_ok hx] at hs ⊢
        rw [run_follow_ok hy] at ht ⊢
        exact ih _ _ hab hxy (rejects _ x) (rejects' _ y) (ready.2 _ x) (passes.2 _ x)
          (passes'.2 _ y) (.inr ⟨passes.1 lags _, w, _, t₂, hw, hwk, ha, inStep₁⟩) hs ht
      | failing lags failing =>
        rw [run_follow_error hx]
        rw [run_follow_ok hy] at ht ⊢
        exact ends_failing hd (passes'.1 (hr.lags_eq ▸ lags) _) failing ht
      | rejected inStep₁ hu hv =>
        rw [run_follow_error hx, run_follow_error hy]
        exact .rejected inStep₁ hu hv
      | unread unread alike =>
        rw [run_follow_error hx, run_follow_error hy]
        exact .unread unread alike
    · cases h.2.1.symm.trans hx
      exact ready.1

end

namespace Rule
variable {c : Category} {rule rule' : Rule c} {e : Fault} {s : σ} {t t' : τ} {v w : Token}

/-- At a terminator, skipping goes on after it. -/
theorem run_terminators {n : Nat} (hv : current? t = some v) (hk : v.kind = .op .lineEnd) :
    terminators.run (n + 1) t =
      (Script.eat (.op .lineEnd) fun _ => .follow terminators .done).run
        (fun rule => rule.run n) t := by
  have script : terminators.script = .current fun v => if v.kind = .op .lineEnd then
      .eat (.op .lineEnd) fun _ => .follow terminators .done else .done () := by
    simp [script]
  rw [run, script, Script.run_current hv, if_pos hk]

/-- The rule for terminators goes past a terminator. -/
theorem run_terminators_advance {n : Nat} (hv : current? t = some v) (hk : v.kind = .op .lineEnd)
    (ha : advance t = .ok w t') : terminators.run (n + 1) t = terminators.run n t' := by
  rw [run_terminators hv hk, Script.run_eat_advance hv (Token.hasKind_of_eq hk) ha, Script.run,
    bind_eq]
  cases terminators.run n t' <;> rfl

/-- Rules that begin with skipping terminators fail after one behind which nothing can be read. -/
theorem run_failing {n : Nat} (hk : rule.skips = true) (h : Failing R e t)
    (ht : Settled (rule.run n t)) : ∃ e' t', rule.run n t = .error e' t' ∧ e.Like e' := by
  obtain ⟨-, v, e', t', hv, hvk, ha, alike⟩ := h
  have skipping : ∀ {n}, Settled (terminators.run n t) → terminators.run n t = .error e' t' := by
    intro n ht
    cases n with
    | zero => exact absurd rfl (ht t)
    | succ n => rw [run_terminators hv hvk, Script.run_eat_error hv (Token.hasKind_of_eq hvk) ha]
  refine ⟨e', t', ?_, alike⟩
  cases rule with
  | terminators => exact skipping ht
  | end_ =>
    cases n with
    | zero => exact absurd rfl (ht t)
    | succ n => exact Script.run_follow_error (skipping (Script.settled_follow ht))
  | _ => cases hk

/-- A rule that skips terminators is like itself alone. -/
theorem Like.eq_of_skips (h : rule.Like rule') (hk : rule.skips = true) : rule' = rule := by
  cases h with
  | plain => rfl
  | _ => cases hk

variable (hR : KeepStep R)
include hR

/-- How rules that are alike end, given how those do that their scripts follow. -/
theorem ends_succ {n m : Nat}
    (ih : ∀ {c : Category} {rule rule' : Rule c} {s t}, rule.Like rule' → rule.Meets R s t →
      Settled (rule.run n s) → Settled (rule'.run m t) →
      Ends R rule.lags c.Same (rule.run n s) (rule'.run m t))
    (like : rule.Like rule')
    (h : (R s t ∧ ∀ u, current? s = some u → rule.looksAhead = true → u.kind = .ident) ∨
      rule.skips = true ∧ rule.script.Skips rule.lags ∧ Behind R s t)
    (hs : Settled (rule.run (n + 1) s)) (ht : Settled (rule'.run (m + 1) t)) :
    Ends R rule.lags c.Same (rule.run (n + 1) s) (rule'.run (m + 1) t) := by
  have meets : ∃ u v, u.Like v ∧ (rule.looksAhead = true → u.kind = .ident) ∧
      ((R s t ∧ current? s = some u ∧ current? t = some v ∧ u.Like v) ∨
        rule.script.Skips rule.lags ∧ Behind R s t) := by
    rcases h with ⟨inStep, ident⟩ | ⟨skips, behind⟩
    · obtain ⟨u, v, hu, hv, huv⟩ := hR.current inStep
      exact ⟨u, v, huv, ident u hu, .inl ⟨inStep, hu, hv, huv⟩⟩
    · obtain ⟨_, _, _, -, -, -, inStep⟩ := behind.2
      obtain ⟨u, v, -, -, huv⟩ := hR.current inStep
      refine ⟨u, v, huv, fun h => ?_, .inr behind⟩
      cases rule with
      | terminators | end_ => cases h
      | _ => cases skips
  obtain ⟨u, v, huv, ident, h⟩ := meets
  have ident' : rule'.looksAhead = true → v.kind = .ident := by
    rw [← huv.kind, ← like.looksAhead_eq]
    exact ident
  have passes' : rule'.script.Passes rule.lags v := like.lags_eq ▸ passes_script ident'
  exact Script.ends hR ih run_failing (like_script like huv ident) (rule.rejects_script u)
    (rule'.rejects_script v) (ready_script ident) (passes_script ident) passes' h hs ht

/-- Rules that are alike end in the same way on readers that keep step. -/
theorem ends {n m : Nat} (like : rule.Like rule') (h : rule.Meets R s t)
    (hs : Settled (rule.run n s)) (ht : Settled (rule'.run m t)) :
    Ends R rule.lags c.Same (rule.run n s) (rule'.run m t) := by
  induction n generalizing c s t m with
  | zero => exact absurd rfl (hs s)
  | succ n ih =>
    cases m with
    | zero => exact absurd rfl (ht t)
    | succ m =>
      rcases h with inStep | ⟨skips, behind⟩
      · exact ends_succ hR ih like (.inl inStep) hs ht
      obtain rfl := like.eq_of_skips skips
      cases rule' with
      | end_ => exact ends_succ hR ih like (.inr ⟨skips, skips, behind⟩) hs ht
      | terminators =>
        -- The second reader skips the other terminator first.
        obtain ⟨v, _, t', hv, hk, ha, inStep⟩ := behind
        rw [run_terminators_advance hv hk ha] at ht ⊢
        cases m with
        | zero => exact absurd rfl (ht t')
        | succ m => exact ends_succ hR ih like (.inl ⟨inStep, fun _ _ h => nomatch h⟩) hs ht
      | _ => cases skips

/-- Parses of rules that are alike end in the same way on readers that keep step. -/
theorem ends_parse [LawfulReader σ] [LawfulReader τ] (like : rule.Like rule')
    (h : rule.Meets R s t) (hs : Valid s) (ht : Valid t) :
    Ends R rule.lags c.Same (rule.parse s) (rule'.parse t) := by
  rw [parse_eq, parse_eq]
  exact ends hR like h (settled_run_stepsFor hs) (settled_run_stepsFor ht)

end Rule

end

end Quill
