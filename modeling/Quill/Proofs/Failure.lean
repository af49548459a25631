import Mathlib.Logic.Relation
import Quill.Proofs.Steps

/-!
# What a failed run reports

A run fails where the reader has no further token, or at the current token: because another kind is
asked for, or because no production of a rule accepts it. In the second case the error shows the
kind and the position of that token (`Fault.Reports`), and the reader is left there. That scripts
reject nothing but the current token is read off them, rule by rule (`Script.Rejects`).
-/

namespace Quill

open TokenReader LawfulReader

/-- The error is about the token: its kind is not the one required, or it is none that a rule
accepts. -/
def Fault.Reports (e : Fault) (t : Token) : Prop :=
  (∃ expected, e = .atPosition (.tokenMismatch expected t.kind) t.pos) ∨
    ∃ rule item, e = .atPosition (.grammar rule t.kind (some item)) t.pos

/-! ## Scripts -/

namespace Script

/-- Whether the script, which finds the token `t`, rejects only tokens that are current. -/
def Rejects {α : Type} : Script α → Token → Prop
  | done _, _ => True
  | fail d, t => (Fault.diagnostic d).Reports t
  | current next, t => (next t).Rejects t
  | ahead next, t => ∀ u, (next u).Rejects t
  | eat _ next, _ => ∀ t u, (next t).Rejects u
  | follow _ next, _ => ∀ a u, (next a).Rejects u

/-- A choice rejects only current tokens if the branch taken does. -/
theorem rejects_ite {α : Type} {p : Prop} [Decidable p] {x y : Script α} {t : Token} :
    (if p then x else y).Rejects t ↔ (p → x.Rejects t) ∧ (¬p → y.Rejects t) := by
  split <;> simp_all

end Script

/-- The rules reject only tokens that are current. -/
theorem Rule.rejects_script {c : Category} (rule : Rule c) (t : Token) : rule.script.Rejects t := by
  cases rule with
  | entry e => cases e <;> simp [script, Script.Rejects]
  | _ => simp [script, Script.Rejects, Script.rejects_ite, Fault.Reports, Fault.atPosition]

/-! ## Runs -/

section
variable {σ : Type} [TokenReader σ] {s s' : σ} {e : Fault}

/-- The reader has been read on from the one state to the other. -/
abbrev ReadsTo : σ → σ → Prop := Relation.ReflTransGen fun s s' => ∃ t, advance s = .ok t s'

/-- A script only reads on if the rules that it follows do. -/
theorem Script.Runs.readsTo {follows : {c : Category} → Rule c → σ → c.Tree → σ → Prop}
    (hf : ∀ {c : Category} (rule : Rule c) s a s', follows rule s a s' → ReadsTo s s')
    {α : Type} {script : Script α} {b : α} (h : script.Runs follows s b s') : ReadsTo s s' := by
  induction script generalizing s with
  | done a =>
    obtain ⟨-, rfl⟩ := h
    exact .refl
  | fail d => exact h.elim
  | current next ih | ahead next ih =>
    obtain ⟨t, -, h⟩ := h
    exact ih t h
  | eat kind next ih =>
    obtain ⟨t, s₁, ⟨-, -, ha⟩, h⟩ := h
    exact .head ha (ih t h)
  | follow rule next ih =>
    obtain ⟨a, s₁, hr, h⟩ := h
    exact (hf rule s a s₁ hr).trans (ih a h)

/-- A rule only reads on. -/
theorem Rule.Parses.readsTo {c : Category} {rule : Rule c} {a : c.Tree}
    (h : rule.Parses s a s') : ReadsTo s s' :=
  h.induction (motive := fun _ s _ s' => ReadsTo s s')
    fun _ _ _ _ h => h.readsTo fun _ _ _ _ h => h.2

/-- A run from the state `s` fails with the error and leaves `s'`: no further token can be read, or
the current token is rejected. -/
inductive FailsAt (s : σ) (e : Fault) (s' : σ) : Prop
  | unread {s₁ s₂ : σ} : ReadsTo s s₁ → advance s₁ = .error e s₂ → FailsAt s e s'
  | rejected {t : Token} : ReadsTo s s' → current? s' = some t → e.Reports t → FailsAt s e s'

/-- A run that fails where it has been read on to fails. -/
theorem FailsAt.of_readsTo {s₁ : σ} (h : ReadsTo s s₁) (hf : FailsAt s₁ e s') :
    FailsAt s e s' := by
  cases hf with
  | unread hr ha => exact .unread (h.trans hr) ha
  | rejected hr ht he => exact .rejected (h.trans hr) ht he

variable [LawfulReader σ]

/-- Reading on leads from a current token to a current token. -/
theorem ReadsTo.valid (h : ReadsTo s s') (hs : Valid s) : Valid s' := by
  induction h with
  | refl => exact hs
  | tail _ step ih =>
    obtain ⟨t, ht⟩ := step
    exact valid_advance ih ht

/-- How a script fails, given how the rules do that it follows. -/
theorem Script.failsAt {follow : {c : Category} → Rule c → EStateM Fault σ c.Tree}
    (hf : ∀ {c : Category} (rule : Rule c) {s : σ} {e s'}, Valid s → follow rule s = .error e s' →
      e = .outOfSteps ∨ FailsAt s e s')
    (hp : ∀ {c : Category} (rule : Rule c) s a s', follow rule s = .ok a s' → rule.Parses s a s')
    {α : Type} {script : Script α} {t : Token} (hs : Valid s) (ht : current? s = some t)
    (hr : script.Rejects t) (h : script.run follow s = .error e s') :
    e = .outOfSteps ∨ FailsAt s e s' := by
  induction script generalizing s t with
  | done a => cases h
  | fail d =>
    cases h
    exact .inr (.rejected .refl ht hr)
  | current next ih =>
    rw [run_current ht] at h
    exact ih t hs ht hr h
  | ahead next ih =>
    cases ha : advance s with
    | error e₁ s₁ =>
      rw [run_ahead_error ha] at h
      cases h
      exact .inr (.unread .refl ha)
    | ok u s₁ =>
      rw [run_ahead ha] at h
      exact ih u hs ht (hr u) h
  | eat kind next ih =>
    by_cases hk : t.hasKind kind = true
    · cases ha : advance s with
      | error e₁ s₁ =>
        rw [run_eat_error ht hk ha] at h
        cases h
        exact .inr (.unread .refl ha)
      | ok u s₁ =>
        rw [run_eat_advance ht hk ha] at h
        have failed := ih t (valid_advance hs ha) (current_advance hs ha) (hr t u) h
        exact failed.imp_right (.of_readsTo (.single ⟨u, ha⟩))
    · rw [run_eat_mismatch ht hk] at h
      cases h
      exact .inr (.rejected .refl ht (.inl ⟨kind, rfl⟩))
  | follow rule next ih =>
    cases hc : follow rule s with
    | error e₁ s₁ =>
      rw [run_follow_error hc] at h
      cases h
      exact hf rule hs hc
    | ok a s₁ =>
      rw [run_follow_ok hc] at h
      have parsed := hp rule s a s₁ hc
      have hs₁ := (parsed.onward hs).1
      obtain ⟨u, hu⟩ := exists_current hs₁
      have failed := ih a hs₁ hu (hr a u) h
      exact failed.imp_right (.of_readsTo parsed.readsTo)

namespace Rule
variable {c : Category} {rule : Rule c}

/-- A run that fails otherwise than for want of steps has no further token or rejects one. -/
theorem failsAt_of_run {n : Nat} (hs : Valid s) (h : rule.run n s = .error e s') :
    e = .outOfSteps ∨ FailsAt s e s' := by
  induction n generalizing c s e s' with
  | zero =>
    cases h
    exact .inl rfl
  | succ n ih =>
    obtain ⟨t, ht⟩ := exists_current hs
    exact Script.failsAt (fun _ _ _ _ hs h => ih hs h) (fun _ _ _ _ h => ⟨n, h⟩) hs ht
      (rule.rejects_script t) h

/-- A parse that fails has no further token or rejects one. -/
theorem failsAt_of_parse (hs : Valid s) (h : rule.parse s = .error e s') : FailsAt s e s' := by
  rw [parse_eq] at h
  refine (failsAt_of_run hs h).resolve_left ?_
  rintro rfl
  exact settled_run_stepsFor hs s' h

end Rule

end

end Quill
