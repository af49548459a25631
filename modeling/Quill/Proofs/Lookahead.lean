import Quill.Proofs.Agreement
import Quill.Proofs.Feed

/-!
# How far a run looks

Whatever stands after a token that a run does not consume has no part in what the run gives: with
other tokens after that one it ends in the same way (`Rule.reads_or_related`). This is not for want
of lookahead. A call and an assignment are known from the token after their name; but wherever this
token is looked at, the name is consumed next, whatever is seen (`Script.Takes`). Two facts about
scripts say so, and they are read off the rules, one by one (`Rule.ready_script`,
`Rule.takes_script`).
-/

namespace Quill

open TokenReader LawfulReader

/-! ## Runs on tapes -/

/-- The tokens that a run leaves. -/
def left {α : Type} : EStateM.Result Fault Tape α → List Token
  | .ok _ s | .error _ s => s.tokens

namespace Script
variable {runs : {c : Category} → Rule c → EStateM Fault Tape c.Tree} {α : Type} {t u : Token}
  {ts : List Token}

/-- A token of the kind is consumed if another one comes after it. -/
theorem run_eat {kind : Kind} {next : Token → Script α} (hk : t.hasKind kind = true) :
    (eat kind next).run runs (Tape.mk (t :: u :: ts)) = (next t).run runs (Tape.mk (u :: ts)) :=
  run_eat_advance rfl hk rfl

/-- The last token is consumed and stays current. -/
theorem run_eat_last {kind : Kind} {next : Token → Script α} (hk : t.hasKind kind = true) :
    (eat kind next).run runs (Tape.mk [t]) = (next t).run runs (Tape.mk [t]) :=
  run_eat_advance rfl hk rfl

/-- A token of another kind is a mismatch. -/
theorem run_eat_of_not {kind : Kind} {next : Token → Script α} (hk : ¬t.hasKind kind = true) :
    (eat kind next).run runs (Tape.mk (t :: ts)) =
      .error (.atPosition (.tokenMismatch kind t.kind) t.pos) (Tape.mk (t :: ts)) :=
  run_eat_mismatch rfl hk

/-- A run leaves some of the last tokens. -/
theorem left_suffix (hr : ∀ {c : Category} (rule : Rule c) s, left (runs rule s) <:+ s.tokens)
    (script : Script α) (s : Tape) : left (script.run runs s) <:+ s.tokens := by
  induction script generalizing s with
  | done a | fail d => exact List.suffix_refl _
  | current next ih =>
    obtain ⟨ts⟩ := s
    cases ts with
    | nil => exact List.suffix_refl _
    | cons t ts => exact ih t _
  | ahead next ih =>
    obtain ⟨ts⟩ := s
    match ts with
    | [] => exact List.suffix_refl _
    | [t] => exact ih t _
    | t :: u :: ts => exact ih u _
  | eat kind next ih =>
    obtain ⟨ts⟩ := s
    match ts with
    | [] => exact List.suffix_refl _
    | t :: ts =>
      by_cases hk : t.hasKind kind = true
      · cases ts with
        | nil =>
          rw [run_eat_last hk]
          exact ih t _
        | cons u ts =>
          rw [run_eat hk]
          exact (ih t _).trans (List.suffix_cons t _)
      · rw [run_eat_of_not hk]
        exact List.suffix_refl _
  | follow rule next ih =>
    cases h : runs rule s with
    | ok a s₁ =>
      rw [run_follow_ok h]
      have first := hr rule s
      rw [h] at first
      exact (ih a s₁).trans first
    | error e s₁ =>
      rw [run_follow_error h]
      have first := hr rule s
      rw [h] at first
      exact first

end Script

/-- A rule leaves the last tokens of its tape, however it ends. -/
theorem Rule.left_suffix (n : Nat) {c : Category} (rule : Rule c) (s : Tape) :
    left (rule.run n s) <:+ s.tokens := by
  induction n generalizing c s with
  | zero => exact List.suffix_refl _
  | succ n ih => exact Script.left_suffix (fun rule s => ih rule s) _ s

/-! ## What can be read off the scripts -/

/-- Whether the rule consumes a name that it begins with, or fails after it. -/
def Rule.takes : {c : Category} → Rule c → Bool
  | _, named | _, expr | _, term | _, power | _, factor | _, name | _, call => true
  | _, _ => false

/-- Whether the rule can begin with a name only: it looks at the token after it. -/
def Rule.looksAhead : {c : Category} → Rule c → Bool
  | _, named | _, name => true
  | _, _ => false

namespace Script

/-- Whether the script, which finds the token `t`, consumes it before it ends. -/
def Takes {α : Type} : Script α → Token → Prop
  | done _, _ | fail _, _ => False
  | current next, t => (next t).Takes t
  | ahead next, t => ∀ u, (next u).Takes t
  | eat kind _, t => t.hasKind kind = true
  | follow rule _, t => rule.takes = true ∧ t.kind = .ident

/-- Whether the script, which finds the token `t`, consumes any token behind which it looks. -/
def Ready {α : Type} : Script α → Token → Prop
  | done _, _ | fail _, _ => True
  | current next, t => (next t).Ready t
  | ahead next, t => ∀ u, (next u).Takes t ∧ (next u).Ready t
  | eat _ next, _ => ∀ t u, (next t).Ready u
  | follow rule next, t => (rule.looksAhead = true → t.kind = .ident) ∧ ∀ a u, (next a).Ready u

section
variable {α : Type} {p : Prop} [Decidable p] {x y : Script α} {t : Token}

/-- A choice consumes the token if the branch taken does. -/
theorem takes_ite : (if p then x else y).Takes t ↔ (p → x.Takes t) ∧ (¬p → y.Takes t) := by
  split <;> simp_all

/-- A choice consumes what it looks behind if the branch taken does. -/
theorem ready_ite : (if p then x else y).Ready t ↔ (p → x.Ready t) ∧ (¬p → y.Ready t) := by
  split <;> simp_all

end

end Script

namespace Rule
variable {c : Category} {rule : Rule c} {t : Token}

/-- The rules that are said to consume a name do, for what their scripts begin with. -/
theorem takes_script (h : rule.takes = true) (ht : t.kind = .ident) : rule.script.Takes t := by
  have has : t.hasKind .ident = true := Token.hasKind_of_eq ht
  cases rule <;> first
    | (cases h; done)
    | simp [script, takes, Script.Takes, Script.takes_ite, ht, has]

/-- No rule looks behind a token that it does not consume. -/
theorem ready_script (h : rule.looksAhead = true → t.kind = .ident) : rule.script.Ready t := by
  cases rule with
  | entry e => cases e <;> simp [script, looksAhead, Script.Ready]
  | named | name =>
    have ht := h rfl
    have has : t.hasKind .ident = true := Token.hasKind_of_eq ht
    simp [script, looksAhead, takes, Script.Ready, Script.Takes, Script.takes_ite,
      Script.ready_ite, ht, has]
  | _ => simp +contextual [script, looksAhead, Script.Ready, Script.ready_ite]

end Rule

/-! ## Consuming the token behind which a run looks -/

section
variable {t : Token} {rest rest' : List Token}

/-- A script that takes the first token leaves some of the tokens after it. -/
theorem Script.left_suffix_of_takes
    {runs : {c : Category} → Rule c → EStateM Fault Tape c.Tree}
    (hr : ∀ {c : Category} (rule : Rule c) s, left (runs rule s) <:+ s.tokens)
    (ht : ∀ {c : Category} (rule : Rule c), rule.takes = true → t.kind = .ident →
      Settled (runs rule (Tape.mk (t :: rest))) → left (runs rule (Tape.mk (t :: rest))) <:+ rest)
    {α : Type} {script : Script α} (h : script.Takes t) (hne : rest ≠ [])
    (hs : Settled (script.run runs (Tape.mk (t :: rest)))) :
    left (script.run runs (Tape.mk (t :: rest))) <:+ rest := by
  obtain ⟨u, us, rfl⟩ := List.exists_cons_of_ne_nil hne
  induction script with
  | done a | fail d => exact h.elim
  | current next ih => exact ih t h hs
  | ahead next ih => exact ih u (h u) hs
  | eat kind next ih =>
    rw [run_eat h]
    exact left_suffix hr (next t) _
  | follow rule next ih =>
    have first := ht rule h.1 h.2 (settled_follow hs)
    cases hc : runs rule (Tape.mk (t :: u :: us)) with
    | ok a s₁ =>
      rw [run_follow_ok hc]
      rw [hc] at first
      exact (left_suffix hr (next a) s₁).trans first
    | error e s₁ =>
      rw [run_follow_error hc]
      rw [hc] at first
      exact first

/-- A rule that takes a name has consumed it when it ends, however it ends. -/
theorem Rule.left_suffix_of_takes {n : Nat} {c : Category} {rule : Rule c} (h : rule.takes = true)
    (ht : t.kind = .ident) (hne : rest ≠ []) (hs : Settled (rule.run n (Tape.mk (t :: rest)))) :
    left (rule.run n (Tape.mk (t :: rest))) <:+ rest := by
  induction n generalizing c with
  | zero => exact absurd rfl (hs _)
  | succ n ih =>
    exact Script.left_suffix_of_takes (fun rule s => rule.left_suffix n s)
      (fun rule h _ hs => ih h hs) (takes_script h ht) hne hs

/-! ## Tapes that begin alike -/

/-- The tapes begin with the same tokens, up to `t`, after which they go on with `rest` and with
`rest'`. -/
def Alike (t : Token) (rest rest' : List Token) (s s' : Tape) : Prop :=
  ∃ us, s.tokens = us ++ t :: rest ∧ s'.tokens = us ++ t :: rest'

/-- A list with a last element has a first one. -/
theorem exists_first (us : List Token) (t : Token) : ∃ x, (us ++ [t]).head? = some x := by
  cases us <;> exact ⟨_, rfl⟩

variable (hne : rest ≠ [])
include hne

/-- How a script ends on tapes that begin alike, given how the rules do that it follows: it consumes
the last token that they share, or ends in the same way on both. -/
theorem Script.reads_or_related {runs : {c : Category} → Rule c → EStateM Fault Tape c.Tree}
    (hr : ∀ {c : Category} (rule : Rule c) s, left (runs rule s) <:+ s.tokens)
    (ht : ∀ {c : Category} (rule : Rule c), rule.takes = true → t.kind = .ident →
      Settled (runs rule (Tape.mk (t :: rest))) → left (runs rule (Tape.mk (t :: rest))) <:+ rest)
    (hf : ∀ {c : Category} (rule : Rule c) (us : List Token) (x : Token),
      (us ++ [t]).head? = some x → (rule.looksAhead = true → x.kind = .ident) →
      Settled (runs rule (Tape.mk (us ++ t :: rest))) →
      left (runs rule (Tape.mk (us ++ t :: rest))) <:+ rest ∨
        Related (Alike t rest rest') (runs rule (Tape.mk (us ++ t :: rest)))
          (runs rule (Tape.mk (us ++ t :: rest'))))
    {α : Type} {script : Script α} {us : List Token} {x : Token}
    (hx : (us ++ [t]).head? = some x) (ready : script.Ready x)
    (settled : Settled (script.run runs (Tape.mk (us ++ t :: rest)))) :
    left (script.run runs (Tape.mk (us ++ t :: rest))) <:+ rest ∨
      Related (Alike t rest rest') (script.run runs (Tape.mk (us ++ t :: rest)))
        (script.run runs (Tape.mk (us ++ t :: rest'))) := by
  induction script generalizing us x with
  | done a => exact .inr ⟨rfl, us, rfl, rfl⟩
  | fail d => exact .inr rfl
  | current next ih =>
    cases us with
    | nil =>
      cases hx
      exact @ih t [] t rfl ready settled
    | cons u us =>
      cases hx
      exact @ih x (x :: us) x rfl ready settled
  | ahead next ih =>
    cases us with
    | nil =>
      -- What is seen differs, but the token before it is consumed.
      cases hx
      have takes : (ahead next).Takes t := fun u => (ready u).1
      exact .inl (left_suffix_of_takes hr ht takes hne settled)
    | cons u us =>
      cases hx
      cases us with
      | nil => exact @ih t [x] x rfl (ready t).2 settled
      | cons v us => exact @ih v (x :: v :: us) x rfl (ready v).2 settled
  | eat kind next ih =>
    by_cases hk : x.hasKind kind = true
    · cases us with
      | nil =>
        cases hx
        obtain ⟨u, ts, rfl⟩ := List.exists_cons_of_ne_nil hne
        refine .inl ?_
        rw [List.nil_append, run_eat hk]
        exact left_suffix hr (next t) _
      | cons u us =>
        cases hx
        cases us with
        | nil =>
          rw [List.cons_append, List.nil_append, run_eat hk] at settled ⊢
          rw [List.cons_append, List.nil_append, run_eat hk]
          exact @ih x [] t rfl (ready x t) settled
        | cons v us =>
          rw [List.cons_append, List.cons_append, run_eat hk] at settled ⊢
          rw [List.cons_append, List.cons_append, run_eat hk]
          exact @ih x (v :: us) v rfl (ready x v) settled
    · refine .inr ?_
      cases us with
      | nil =>
        cases hx
        rw [List.nil_append, List.nil_append, run_eat_of_not hk, run_eat_of_not hk]
        rfl
      | cons u us =>
        cases hx
        rw [List.cons_append, List.cons_append, run_eat_of_not hk, run_eat_of_not hk]
        rfl
  | follow rule next ih =>
    have first := hf rule us x hx ready.1 (settled_follow settled)
    cases hc : runs rule (Tape.mk (us ++ t :: rest)) with
    | error e s₁ =>
      rw [hc] at first
      rw [run_follow_error hc]
      refine first.imp id fun related => ?_
      cases hc' : runs rule (Tape.mk (us ++ t :: rest')) with
      | ok b s₁' =>
        rw [hc'] at related
        exact related.elim
      | error e' s₁' =>
        rw [hc'] at related
        rw [run_follow_error hc']
        exact related
    | ok a s₁ =>
      rw [run_follow_ok hc] at settled ⊢
      rw [hc] at first
      rcases first with beyond | related
      · exact .inl ((left_suffix hr (next a) s₁).trans beyond)
      cases hc' : runs rule (Tape.mk (us ++ t :: rest')) with
      | error e' s₁' =>
        rw [hc'] at related
        exact related.elim
      | ok b s₁' =>
        rw [hc'] at related
        obtain ⟨rfl, alike⟩ := related
        rw [run_follow_ok hc']
        obtain ⟨ts⟩ := s₁
        obtain ⟨ts'⟩ := s₁'
        obtain ⟨us₁, rfl, rfl⟩ := alike
        obtain ⟨y, hy⟩ := exists_first us₁ t
        exact ih a hy (ready.2 a y) settled

/-- A run that does not consume the last token that two tapes share ends in the same way on both. -/
theorem Rule.reads_or_related {n : Nat} {c : Category} (rule : Rule c) {us : List Token} {x : Token}
    (hx : (us ++ [t]).head? = some x) (ready : rule.looksAhead = true → x.kind = .ident)
    (settled : Settled (rule.run n (Tape.mk (us ++ t :: rest)))) :
    left (rule.run n (Tape.mk (us ++ t :: rest))) <:+ rest ∨
      Related (Alike t rest rest') (rule.run n (Tape.mk (us ++ t :: rest)))
        (rule.run n (Tape.mk (us ++ t :: rest'))) := by
  induction n generalizing c us x with
  | zero => exact absurd rfl (settled _)
  | succ n ih =>
    exact Script.reads_or_related hne (fun rule s => rule.left_suffix n s)
      (fun _ h ht hs => left_suffix_of_takes h ht hne hs)
      (fun rule _ _ hx ready hs => ih rule hx ready hs) hx (ready_script ready) settled

/-- A run that ends at a token ends there in the same way whatever comes after the token. -/
theorem Rule.related_of_left {n : Nat} {c : Category} (rule : Rule c) {us : List Token} {x : Token}
    (hx : (us ++ [t]).head? = some x) (ready : rule.looksAhead = true → x.kind = .ident)
    (settled : Settled (rule.run n (Tape.mk (us ++ t :: rest))))
    (hl : left (rule.run n (Tape.mk (us ++ t :: rest))) = t :: rest) :
    Related (Alike t rest rest') (rule.run n (Tape.mk (us ++ t :: rest)))
      (rule.run n (Tape.mk (us ++ t :: rest'))) := by
  refine (rule.reads_or_related hne hx ready settled).resolve_left fun beyond => ?_
  have le := beyond.length_le
  rw [hl, List.length_cons] at le
  omega

/-- What is parsed up to a token is parsed up to it whatever comes after the token. -/
theorem Rule.parses_of_run {n : Nat} {c : Category} {rule : Rule c} {us : List Token} {x : Token}
    {a : c.Tree} (hx : (us ++ [t]).head? = some x)
    (ready : rule.looksAhead = true → x.kind = .ident)
    (h : rule.run n (Tape.mk (us ++ t :: rest)) = .ok a (Tape.mk (t :: rest))) :
    rule.Parses (Tape.mk (us ++ t :: rest')) a (Tape.mk (t :: rest')) := by
  have settled : Settled (rule.run n (Tape.mk (us ++ t :: rest))) := by
    intro s₁ he
    cases h.symm.trans he
  have related : Related (Alike t rest rest') _ _ :=
    rule.related_of_left hne hx ready settled (by rw [h]; rfl)
  rw [h] at related
  cases hc : rule.run n (Tape.mk (us ++ t :: rest')) with
  | error e s₁ =>
    rw [hc] at related
    exact related.elim
  | ok b s₁ =>
    rw [hc] at related
    obtain ⟨rfl, us₁, same, tokens⟩ := related
    cases List.self_eq_append_left.1 same
    obtain ⟨ts⟩ := s₁
    cases tokens
    exact ⟨n, hc⟩

end

end Quill
