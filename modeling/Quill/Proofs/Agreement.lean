import Quill.Proofs.Steps

/-!
# Readers that agree

Two readers agree along a relation between their states if related states have the same current
token, and reading the next one gives the same token and related states, or fails in the same way
(`Agreement`). Whatever is run on them then ends in the same way (`Agreement.run`), so a parse of
the one is a parse of the other, with the same tree or the same fault (`Agreement.parse`).
-/

namespace Quill

open TokenReader LawfulReader

section
variable {σ τ : Type}

/-- What a run gives, whatever the state that it leaves. -/
def outcome {α : Type} : EStateM.Result Fault σ α → Except Fault α
  | .ok a _ => .ok a
  | .error e _ => .error e

/-- An outcome is a success if what ran succeeded, in whatever state. -/
theorem outcome_eq_ok_iff {α : Type} {x : EStateM.Result Fault σ α} {a : α} :
    outcome x = .ok a ↔ ∃ s, x = .ok a s := by
  cases x <;> simp [outcome]

/-- Two results are the same, and leave related states if they are no failures. -/
def Related (R : σ → τ → Prop) {α : Type} :
    EStateM.Result Fault σ α → EStateM.Result Fault τ α → Prop
  | .ok a s, .ok b t => a = b ∧ R s t
  | .error e _, .error f _ => e = f
  | _, _ => False

variable {R : σ → τ → Prop}

/-- Runs that are related have the same outcome. -/
theorem Related.outcome_eq {α : Type} {x : EStateM.Result Fault σ α}
    {y : EStateM.Result Fault τ α} (h : Related R x y) : outcome x = outcome y := by
  cases x <;> cases y
  · exact congrArg Except.ok h.1
  · exact h.elim
  · exact h.elim
  · exact congrArg Except.error h

/-- What follows related results may be run on related states. -/
theorem Related.bind {α β : Type} {x : EStateM Fault σ α} {y : EStateM Fault τ α}
    {f : α → EStateM Fault σ β} {g : α → EStateM Fault τ β} {s : σ} {t : τ}
    (h : Related R (x s) (y t)) (hf : ∀ a {s t}, R s t → Related R (f a s) (g a t)) :
    Related R ((x >>= f) s) ((y >>= g) t) := by
  rw [bind_eq, bind_eq]
  cases hx : x s with
  | ok a s₁ =>
    cases hy : y t with
    | ok b t₁ =>
      rw [hx, hy] at h
      obtain ⟨rfl, h⟩ := h
      exact hf a h
    | error e t₁ =>
      rw [hx, hy] at h
      exact h.elim
  | error e s₁ =>
    cases hy : y t with
    | ok b t₁ =>
      rw [hx, hy] at h
      exact h.elim
    | error e t₁ =>
      rw [hx, hy] at h
      exact h

variable [TokenReader σ] [TokenReader τ]

/-- Two readers agree along a relation between their states. -/
structure Agreement (R : σ → τ → Prop) : Prop where
  current : ∀ {s t}, R s t → current? s = current? t
  advance : ∀ {s t}, R s t → Related R (advance s) (advance t)

namespace Agreement
variable (hR : Agreement R) {s : σ} {t : τ}
include hR

/-- Related readers have the same current token. -/
theorem related_current (h : R s t) :
    Related R (TokenReader.current s) (TokenReader.current t) := by
  rw [current_eq, current_eq, hR.current h]
  cases current? t with
  | none => exact rfl
  | some u => exact ⟨rfl, h⟩

/-- Related readers look ahead alike. -/
theorem related_ahead (h : R s t) : Related R (ahead s) (ahead t) := by
  have := hR.advance h
  unfold ahead
  cases hs : TokenReader.advance s <;> cases ht : TokenReader.advance t <;> rw [hs, ht] at this
  · exact ⟨this.1, h⟩
  · exact this.elim
  · exact this.elim
  · exact this

/-- Related readers consume a token alike. -/
theorem related_consume (kind : Kind) (h : R s t) :
    Related R (consume kind s) (consume kind t) := by
  have := hR.advance h
  rw [consume_eq, consume_eq, hR.current h]
  cases current? t with
  | none => exact rfl
  | some u =>
    by_cases hk : u.hasKind kind = true
    · simp only [hk, if_true]
      cases hs : TokenReader.advance s <;> cases ht : TokenReader.advance t <;>
        rw [hs, ht] at this
      · exact ⟨rfl, this.2⟩
      · exact this.elim
      · exact this.elim
      · exact this
    · simp only [hk]
      exact rfl

/-- A script does the same on readers that agree, if following a rule does. -/
theorem run_script {follow : {c : Category} → Rule c → EStateM Fault σ c.Tree}
    {follow' : {c : Category} → Rule c → EStateM Fault τ c.Tree}
    (hf : ∀ {c : Category} (rule : Rule c) {s t}, R s t →
      Related R (follow rule s) (follow' rule t))
    {α : Type} (script : Script α) (h : R s t) :
    Related R (script.run follow s) (script.run follow' t) := by
  induction script generalizing s t with
  | done a => exact ⟨rfl, h⟩
  | fail d => exact rfl
  | current next ih => exact (hR.related_current h).bind fun u _ _ h => ih u h
  | ahead next ih => exact (hR.related_ahead h).bind fun u _ _ h => ih u h
  | eat kind next ih => exact (hR.related_consume kind h).bind fun u _ _ h => ih u h
  | follow rule next ih => exact (hf rule h).bind fun a _ _ h => ih a h

/-- A rule does the same on readers that agree, with the same number of steps. -/
theorem run {c : Category} (n : Nat) (rule : Rule c) (h : R s t) :
    Related R (rule.run n s) (rule.run n t) := by
  induction n generalizing c s t with
  | zero => exact rfl
  | succ n ih => exact hR.run_script (fun rule _ _ h => ih rule h) rule.script h

/-- A rule parses the same on readers that agree. -/
theorem parse [LawfulReader σ] [LawfulReader τ] {c : Category} (rule : Rule c) (hs : Valid s)
    (ht : Valid t) (h : R s t) : Related R (rule.parse s) (rule.parse t) := by
  have related := hR.run (max (stepsFor s) (stepsFor t)) rule h
  rw [Rule.run_of_settled (Rule.settled_run_stepsFor hs) (Nat.le_max_left ..),
    Rule.run_of_settled (Rule.settled_run_stepsFor ht) (Nat.le_max_right ..)] at related
  rwa [Rule.parse_eq, Rule.parse_eq]

end Agreement

end

end Quill
